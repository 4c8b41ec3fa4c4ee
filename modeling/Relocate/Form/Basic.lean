import Relocate.Text.Basic

/-!
# Forms

A form is one expression of Clojure source code, as far as a namespace declaration needs it. Strings
keep their source text beside their value, and numbers, characters and regular expressions are kept
as their source text alone, so that writing a form back does not change its meaning.

`Form.render` writes a form on a single line, with one space between neighbouring items.
-/
namespace Relocate

/-- The four kinds of brackets. -/
inductive Bracket where
  | list
  | vector
  | map
  | set
deriving DecidableEq, Repr

/-- The characters that open a sequence. -/
def Bracket.opening : Bracket → Text
  | .list => ['(']
  | .vector => ['[']
  | .map => ['{']
  | .set => ['#', '{']

/-- The character that closes a sequence. -/
def Bracket.closing : Bracket → Char
  | .list => ')'
  | .vector => ']'
  | .map => '}'
  | .set => '}'

/-- The word for a sequence in messages. -/
def Bracket.word : Bracket → String
  | .list => "list"
  | .vector => "vector"
  | .map => "map"
  | .set => "set"

/-- One expression of source code. -/
inductive Form where
  /-- A name. -/
  | symbol (name : Text)
  /-- A name behind a colon, which is left out; a doubled colon leaves one in the name. -/
  | keyword (name : Text)
  /-- A string: what it stands for, and how it is spelled, quotes included. -/
  | string (value raw : Text)
  /-- Any other atom: a number, a constant, a character or a regular expression. -/
  | token (text : Text)
  /-- Items between brackets. -/
  | seq (bracket : Bracket) (items : List Form)
  /-- A form with metadata in front of it. -/
  | annotated (note target : Form)
  /-- A form behind a mark such as a quote, a reader conditional or a literal's tag; the gap is what
  stands between the two. -/
  | marked (mark gap : Text) (target : Form)

namespace Form

mutual

/-- Structural equality of two forms. -/
def same : Form → Form → Bool
  | .symbol a, .symbol b => a == b
  | .keyword a, .keyword b => a == b
  | .string a b, .string c d => a == c && b == d
  | .token a, .token b => a == b
  | .seq a items, .seq b others => a == b && sameAll items others
  | .annotated a b, .annotated c d => same a c && same b d
  | .marked a b c, .marked d e f => a == d && b == e && same c f
  | _, _ => false

/-- Structural equality of two lists of forms. -/
def sameAll : List Form → List Form → Bool
  | [], [] => true
  | a :: as, b :: bs => same a b && sameAll as bs
  | _, _ => false

end

mutual

/-- Comparing a form with itself succeeds. By recursion on the form, together with the lists of
forms in it. -/
@[simp] theorem same_refl : (form : Form) → same form form = true
  | .symbol _ => by simp [same]
  | .keyword _ => by simp [same]
  | .string _ _ => by simp [same]
  | .token _ => by simp [same]
  | .seq _ items => by simp [same, sameAll_refl items]
  | .annotated note target => by simp [same, same_refl note, same_refl target]
  | .marked _ _ target => by simp [same, same_refl target]

/-- Comparing a list of forms with itself succeeds. -/
@[simp] theorem sameAll_refl : (forms : List Form) → sameAll forms forms = true
  | [] => by simp [sameAll]
  | form :: forms => by simp [sameAll, same_refl form, sameAll_refl forms]

end

mutual

/-- Forms that compare as the same are equal. By recursion on the first form: the second one has to
have its shape, and the parts compare one by one. -/
theorem eq_of_same : (a b : Form) → same a b = true → a = b
  | .symbol _, b, agree => by cases b <;> simp_all [same]
  | .keyword _, b, agree => by cases b <;> simp_all [same]
  | .string _ _, b, agree => by cases b <;> simp_all [same]
  | .token _, b, agree => by cases b <;> simp_all [same]
  | .seq _ items, b, agree => by
    cases b with
    | seq _ others =>
      simp only [same, Bool.and_eq_true, beq_iff_eq] at agree
      rw [agree.1, eq_of_sameAll items others agree.2]
    | _ => simp [same] at agree
  | .annotated note target, b, agree => by
    cases b with
    | annotated other end' =>
      simp only [same, Bool.and_eq_true] at agree
      rw [eq_of_same note other agree.1, eq_of_same target end' agree.2]
    | _ => simp [same] at agree
  | .marked _ _ target, b, agree => by
    cases b with
    | marked _ _ other =>
      simp only [same, Bool.and_eq_true, beq_iff_eq] at agree
      rw [agree.1.1, agree.1.2, eq_of_same target other agree.2]
    | _ => simp [same] at agree

/-- Lists of forms that compare as the same are equal. -/
theorem eq_of_sameAll : (as bs : List Form) → sameAll as bs = true → as = bs
  | [], bs, agree => by cases bs <;> simp_all [sameAll]
  | a :: as, bs, agree => by
    cases bs with
    | nil => simp [sameAll] at agree
    | cons b bs =>
      simp only [sameAll, Bool.and_eq_true] at agree
      rw [eq_of_same a b agree.1, eq_of_sameAll as bs agree.2]

end

/-- The comparison of forms decides their equality. -/
@[simp] theorem same_iff (a b : Form) : same a b = true ↔ a = b :=
  ⟨eq_of_same a b, fun agree => agree ▸ same_refl a⟩

instance : DecidableEq Form := fun a b => decidable_of_iff (same a b = true) (same_iff a b)

mutual

/-- The form on a single line. -/
def render : Form → Text
  | .symbol name => name
  | .keyword name => ':' :: name
  | .string _ raw => raw
  | .token text => text
  | .seq bracket items => bracket.opening ++ renderItems items ++ [bracket.closing]
  | .annotated note target => '^' :: render note ++ ' ' :: render target
  | .marked mark gap target => mark ++ gap ++ render target

/-- The forms on a single line, with one space between neighbours. -/
def renderItems : List Form → Text
  | [] => []
  | [form] => render form
  | form :: forms => render form ++ ' ' :: renderItems forms

end

/-- The form without the metadata in front of it, and that metadata from left to right. -/
def stripNotes : Form → Form × List Form
  | .annotated note target =>
    let (bare, notes) := stripNotes target
    (bare, note :: notes)
  | form => (form, [])

/-- The name of a symbol. -/
def symbolName? : Form → Option Text
  | .symbol name => some name
  | _ => none

end Form

end Relocate
