import Relocate.Proofs.Declaration.Codec
import Relocate.Proofs.Declaration.Splitting
import Relocate.Proofs.Form.LineEnds
import Relocate.Proofs.Scan

/-!
# The dependents of the module of a file

The dependents of a module are asked for by its name, or by the path of a file, which stands for the
module that it declares. The graph of a project has read the file too. It read the text as it is,
while the path is answered with line ends in the place of returns. Where the two readings do not
part up to the end of the declaration, they find one module, and both ways of asking give one
answer: `runDependents_path`. Where they part, the file may stand for a module that the graph has
never met: `brokenComment_misleads`.

What strings and literals hold has no part in which module is declared, so that forms are compared
by their outlines.
-/
namespace Relocate

/-- The outline of a form without its metadata is that of the form with it. -/
@[simp] theorem Form.stripNotes_outline :
    (form : Form) → form.outline.stripNotes.1 = form.stripNotes.1.outline
  | .annotated _ target => stripNotes_outline target
  | .symbol _ | .keyword _ | .string _ _ | .token _ | .seq _ _ | .marked _ _ _ => rfl

/-- Only a symbol has the outline of a symbol. -/
theorem Form.outline_eq_symbol_iff {form : Form} {name : Text} :
    form.outline = .symbol name ↔ form = .symbol name := by
  cases form <;> simp [outline]

/-- A list has the outline of a list with a head exactly if its parts have. -/
theorem Form.outline_eq_list_iff {form head : Form} {bracket : Bracket} {items : List Form} :
    form.outline = .seq bracket (head :: items) ↔ ∃ first others,
      form = .seq bracket (first :: others) ∧ first.outline = head ∧
        outlineAll others = items := by
  constructor
  · intro same
    cases form with
    | seq other members =>
      rw [outline, Form.seq.injEq] at same
      cases members with
      | nil => simp [outlineAll] at same
      | cons first others =>
        rw [outlineAll, List.cons.injEq] at same
        exact ⟨first, others, by rw [same.1], same.2.1, same.2.2⟩
    | _ => simp [outline] at same
  · rintro ⟨first, others, rfl, rfl, rfl⟩
    rfl

/-- The outline of a form shows whether it is a declaration, and of which items. -/
theorem declarationItems?_of_outline {form other : Form} (same : other.outline = form.outline)
    {items : List Form} (declared : declarationItems? form = some items) :
    ∃ others, declarationItems? other = some others ∧
      Form.outlineAll others = Form.outlineAll items := by
  obtain ⟨head, bare, heads⟩ := declarationItems?_eq_some_iff.mp declared
  have stripped : other.stripNotes.1.outline =
      .seq .list (.symbol head :: Form.outlineAll items) := by
    rw [← Form.stripNotes_outline, same, Form.stripNotes_outline, bare]
    rfl
  obtain ⟨first, others, bareOther, headOther, sameItems⟩ := Form.outline_eq_list_iff.mp stripped
  rw [Form.outline_eq_symbol_iff.mp headOther] at bareOther
  exact ⟨others, declarationItems?_eq_some_iff.mpr ⟨head, bareOther, heads⟩, sameItems⟩

/-- The outlines of the items of a declaration show its module. The name is a symbol behind notes,
and an outline keeps symbols and drops no notes. -/
theorem Declaration.ofItems_of_outline {items others : List Form} {declaration : Declaration}
    (same : Form.outlineAll others = Form.outlineAll items)
    (made : Declaration.ofItems items = .ok declaration) :
    ∃ other, Declaration.ofItems others = .ok other ∧ other.module = declaration.module := by
  obtain ⟨name, rest, module, notes, rfl, bare, rfl⟩ := ofItems_ok_iff.mp made
  cases others with
  | nil => simp [Form.outlineAll] at same
  | cons other others =>
    rw [Form.outlineAll, Form.outlineAll, List.cons.injEq] at same
    have stripped : other.stripNotes.1.outline = .symbol module := by
      rw [← Form.stripNotes_outline, same.1, Form.stripNotes_outline, bare]
      rfl
    have symbol := Form.outline_eq_symbol_iff.mp stripped
    exact ⟨_, ofItems_ok_iff.mpr
      ⟨other, others, module, other.stripNotes.2, rfl, Prod.ext symbol rfl, rfl⟩, rfl⟩

/-- What one reading passes over in search of the declaration the other passes over too. By
induction on what is passed over; a form with the outline of one that declares nothing declares
nothing. -/
theorem Passed.unixLines {before rest : Text} (passed : Passed before rest)
    (starts : StartsLexeme rest) (alike : Region.between.agrees (before ++ rest) = true) :
    Region.between.agrees rest = true ∧ Passed (unixLines before) (unixLines rest) := by
  induction passed with
  | layout lead rest layout =>
    obtain ⟨later, again⟩ := layout.unixLines alike
    exact ⟨later, .layout _ _ again⟩
  | form form lead own more rest layout spelled undeclared _ inductionHypothesis =>
    rw [List.append_assoc, List.append_assoc] at alike
    obtain ⟨alikeForm, layoutAgain⟩ := layout.unixLines alike
    obtain ⟨alikeMore, apart, other, again, same⟩ := spelled.unixLines alikeForm
    obtain ⟨later, passedAgain⟩ := inductionHypothesis starts alikeMore
    have noDeclaration : declarationItems? other = none := by
      cases declared : declarationItems? other with
      | none => rfl
      | some items =>
        obtain ⟨others, found, -⟩ := declarationItems?_of_outline same.symm declared
        rw [undeclared] at found
        simp at found
    rw [unixLines_append (linesApart_of_starts starts)] at again
    refine ⟨later, ?_⟩
    rw [unixLines_append (linesApart_of_starts (spelled.starts.append more)),
      unixLines_append apart.of_append]
    exact .form other _ _ _ _ layoutAgain again noDeclaration passedAgain

/-- The text up to the end of its declaration, and the whole text if it has none. -/
def throughDeclaration (text : Text) : Text :=
  match SourceFile.parse text with
  | .ok file => text.take (text.length - file.body.length)
  | .error _ => text

/-- The text through the declaration is the text in front of the declaration and the declaration's
own. -/
theorem throughDeclaration_eq {text own : Text} {file : SourceFile}
    (found : SourceFile.parse text = .ok file) (split : text = file.before ++ (own ++ file.body)) :
    throughDeclaration text = file.before ++ own := by
  have length : text.length - file.body.length = (file.before ++ own).length := by
    rw [split]
    simp only [List.length_append]
    omega
  simp only [throughDeclaration, found, length]
  rw [split, ← List.append_assoc, List.take_left]

/-- Both readings of a text find the same module, if they do not part up to the end of the
declaration. What stands behind it is cut off first, and put back when it has been read. -/
theorem parse_unixLines {text : Text} {declaration : Declaration}
    (parsed : Declaration.parse text = .ok declaration)
    (alike : Region.between.agrees (throughDeclaration text) = true) :
    ∃ other, Declaration.parse (unixLines text) = .ok other ∧
      other.module = declaration.module := by
  obtain ⟨file, found, rfl⟩ := sourceFile_of_parse parsed
  obtain ⟨form, own, items, split, passed, spelled, declared, made⟩ :=
    sourceFile_parse_iff.mp found
  obtain ⟨head, bare, -⟩ := declarationItems?_eq_some_iff.mp declared
  rw [throughDeclaration_eq found split] at alike
  have alone := spelled.replace bare []
  have passedAlone := passed.replace spelled []
  rw [List.append_nil] at passedAlone
  obtain ⟨alikeOwn, passedAgain⟩ := passedAlone.unixLines spelled.starts alike
  obtain ⟨-, -, other, again, same⟩ := alone.unixLines (by rwa [List.append_nil])
  obtain ⟨others, declaredAgain, sameItems⟩ := declarationItems?_of_outline same declared
  obtain ⟨result, madeAgain, sameModule⟩ := Declaration.ofItems_of_outline sameItems made
  obtain ⟨_, bareAgain, -⟩ := declarationItems?_eq_some_iff.mp declaredAgain
  rw [← List.append_nil (unixLines own)] at passedAgain
  have apart : LinesApart own file.body := .inl <| by
    rw [spelled.getLast?_of_bare bare]
    decide
  have splitAgain : unixLines text =
      unixLines file.before ++ (unixLines own ++ unixLines file.body) := by
    rw [split, unixLines_append (linesApart_of_starts (spelled.starts.append _)),
      unixLines_append apart]
  have foundAgain : SourceFile.parse (unixLines text) =
      .ok ⟨unixLines file.before, result, unixLines file.body⟩ :=
    sourceFile_parse_iff.mpr ⟨other, _, others, splitAgain, passedAgain.replace again _,
      again.replace bareAgain _, declaredAgain, madeAgain⟩
  exact ⟨result, by rw [Declaration.parse, foundAgain]; rfl, sameModule⟩

/-- The two readings of the file at a path do not part up to the end of its declaration. -/
def Disk.readsAlike (disk : Disk) (path : Text) : Bool :=
  match disk.read path with
  | .ok (.text text) => Region.between.agrees (throughDeclaration text)
  | _ => true

/-- A file stands for the module that it declares. -/
theorem run_targetModule {world : World} {path : Text} {declaration : Declaration}
    (declared : world.disk.declarationAt path = some declaration)
    (alike : world.disk.readsAlike path = true) :
    (targetModule path).run world = (.ok (.ok declaration.module), world) := by
  obtain ⟨text, read, parsed⟩ := declarationAt_eq_some_iff.mp declared
  obtain ⟨place, found⟩ := Disk.find_of_read read
  have isFile : world.disk.isFile path = true := by simp [Disk.isFile, found]
  rw [Disk.readsAlike, read] at alike
  obtain ⟨other, again, same⟩ := parse_unixLines parsed alike
  rw [targetModule, Action.run_world_bind, if_pos isFile, Action.run_bind_ok_iff]
  refine ⟨_, _, Action.run_readContent read, ?_⟩
  simp only [again, same]
  rfl

/-- What is no file stands for itself. -/
theorem run_targetModule_of_not_file {world : World} {name : Text}
    (noFile : world.disk.isFile name = false) :
    (targetModule name).run world = (.ok (.ok name), world) := by
  rw [targetModule, Action.run_world_bind, noFile]
  rfl

/-- The dependents of a target are those of its module. -/
theorem run_runDependents {project : Project} {world after : World} {graph : ModuleGraph}
    {target module : Text} (stands : (targetModule target).run world = (.ok (.ok module), world))
    (built : project.graph.run world = (.ok graph, after)) (verbosity : Nat) :
    (runDependents verbosity project target).run world =
      (.ok ⟨0, (graph.dependentsOf module).flatMap shown, logText verbosity after.events⟩,
        after) := by
  rw [runDependents, Action.run_bind_ok_iff]
  refine ⟨_, _, stands, ?_⟩
  simp only
  rw [Action.run_bind_ok_iff]
  exact ⟨graph, after, built, rfl⟩

/-- A file that the graph records stands for the module that is recorded, if the readings of its
declaration do not part. Its dependents are then those that the graph has for the module, whether
they are asked for by the path or by the name. The command parses the text with other line ends than
the graph does; both find the same declaration, up to what strings and literals hold. -/
theorem runDependents_path {project : Project} {world after : World} {graph : ModuleGraph}
    {path module : Text} (built : project.graph.run world = (.ok graph, after))
    (recorded : graph.fileModules.get? path = some module)
    (alike : world.disk.readsAlike path = true) (verbosity : Nat) :
    (targetModule path).run world = (.ok (.ok module), world) ∧
      (∃ report, (runDependents verbosity project path).run world = (.ok report, after) ∧
        report.status = 0 ∧ report.output = (graph.dependentsOf module).flatMap shown) ∧
      (world.disk.isFile module = false →
        (runDependents verbosity project module).run world =
          (runDependents verbosity project path).run world) := by
  obtain ⟨roots, -, -, -, rfl⟩ := graph_ok_iff.mp (congrArg Prod.fst built)
  obtain ⟨declaration, listed, rfl⟩ := ModuleGraph.declares_of_fileModules recorded
  have stands := run_targetModule (mem_declaredIn.mp listed).2 alike
  refine ⟨stands, ⟨_, run_runDependents stands built verbosity, rfl, rfl⟩, fun noFile => ?_⟩
  rw [run_runDependents stands built,
    run_runDependents (run_targetModule_of_not_file noFile) built]

/-- A project with one root. -/
def singleRoot : Project := ⟨.ofPaths ['/'] ["/r".toList], defaultExtensions⟩

/-- A disk with a file that declares a module, given by its text, and one that refers to `a`. -/
def declaredBy (text : String) : World where
  disk :=
    ⟨⟨[(["r".toList], .directory),
      (["r".toList, "f.clj".toList], .file (.text text.toList)),
      (["r".toList, "u.clj".toList], .file (.text "(ns u (:require a))".toList))],
      of_decide_eq_true rfl⟩,
      .ofLocation []⟩
  locked := []
  events := []

/-- Returns end lines, stand alone in a string and between two comments, and are a literal; behind
the declaration there is one in a comment that hides a form. -/
def mixedReturns : World :=
  declaredBy "; x\r\n\\\r [\"\r\\\r\n\"] ; y\r ; z\r\r\n(ns\ra)\r\n; x\r(ns b)\n"

/-- The returns of this file do not part the readings in front of the end of its declaration, so
that the command asks for the module that the graph has for the file. -/
theorem runDependents_path_mixedReturns :
    mixedReturns.disk.readsAlike "/r/f.clj".toList = true ∧
      (targetModule "/r/f.clj".toList).run mixedReturns = (.ok (.ok "a".toList), mixedReturns) ∧
      ∃ report after, (runDependents 0 singleRoot "/r/f.clj".toList).run mixedReturns =
        (.ok report, after) ∧ report.output = "/r/u.clj\n".toList := by
  have alike : mixedReturns.disk.readsAlike "/r/f.clj".toList = true := by decide +kernel
  have found : (singleRoot.graph.run mixedReturns).1.map (fun graph =>
      (graph.fileModules.get? "/r/f.clj".toList, graph.dependentsOf "a".toList)) =
        .ok (some "a".toList, ["/r/u.clj".toList]) := by decide +kernel
  generalize built : singleRoot.graph.run mixedReturns = ran at found
  obtain ⟨_ | graph, after⟩ := ran
  · simp [Except.map] at found
  · obtain ⟨recorded, listed⟩ := Prod.mk.inj (Except.ok.inj found)
    obtain ⟨stands, ⟨report, run, -, output⟩, -⟩ := runDependents_path built recorded alike 0
    refine ⟨alike, stands, report, after, run, ?_⟩
    rw [output, listed]
    decide

/-- A return in a comment ends it for one reading alone. The graph has `a` for the file and a
dependent of it, and the path stands for `b`, which has none. -/
theorem brokenComment_misleads :
    let world := declaredBy "; x\r(ns b)\n(ns a)"
    (singleRoot.graph.run world).1.map (fun graph =>
      (graph.fileModules.get? "/r/f.clj".toList, graph.dependentsOf "a".toList)) =
        .ok (some "a".toList, ["/r/u.clj".toList]) ∧
      ((targetModule "/r/f.clj".toList).run world).1 = .ok (.ok "b".toList) ∧
      ((runDependents 0 singleRoot "/r/f.clj".toList).run world).1 = .ok ⟨0, [], []⟩ := by
  decide +kernel

end Relocate
