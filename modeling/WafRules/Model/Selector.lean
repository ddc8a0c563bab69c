import WafRules.Tree.Node

/-!
# Selectors

How an input narrows its variable: not at all, to one key, to all keys but one, or to
a number of occurrences. A selector that names a key carries it, and the key is not
empty; the others carry none. So an ill-formed selector cannot be written down, and
the functions that put one together from loose parts say what is wrong with them.

A modifier is what may stand before the variable of an input. The modifier of an input
that keeps only one key is empty: it is implied by the key and never written.
-/

namespace WafRules

/-- The mark before the variable of an input. -/
inductive Modifier where
  | only | without | count
  deriving DecidableEq

namespace Modifier

def all : List Modifier := [.only, .without, .count]

def spelling : Modifier → String
  | .only => ""
  | .without => "!"
  | .count => "&"

instance : Vocabulary Modifier where
  all := all
  spelling := spelling
  symbol
    | .only => "INCLUDE"
    | .without => "EXCLUDE"
    | .count => "COUNT"
  mem_all a := by cases a <;> decide
  spellings_nodup := by decide

end Modifier

/-- The key of a selector. -/
structure Key where
  text : Text
  nonempty : text ≠ []
  deriving DecidableEq

def Key.ofText? (s : Text) : Option Key :=
  if h : s = [] then none else some ⟨s, h⟩

inductive Selector where
  /-- The variable as it is. -/
  | whole
  | only (key : Key)
  | without (key : Key)
  /-- The number of occurrences under a key. -/
  | count (key : Key)
  /-- The number of occurrences under any key. -/
  | countAll
  deriving DecidableEq

/-- The kind of a selector, apart from its key. -/
inductive SelectorKind where
  | whole | only | without | count | countAll
  deriving DecidableEq

namespace SelectorKind

def all : List SelectorKind := [.whole, .only, .without, .count, .countAll]

def spelling : SelectorKind → String
  | .whole => "none"
  | .only => "include"
  | .without => "exclude"
  | .count => "count"
  | .countAll => "count_all"

instance : Vocabulary SelectorKind where
  all := all
  spelling := spelling
  mem_all a := by cases a <;> decide
  spellings_nodup := by decide

end SelectorKind

/-- Why a kind and a key do not make a selector. -/
inductive SelectorError where
  | keyRequired (kind : SelectorKind)
  | keyForbidden (kind : SelectorKind)
  deriving DecidableEq

def SelectorError.message : SelectorError → String
  | keyRequired kind => s!"{kind.spelling} selector requires a key"
  | keyForbidden kind => s!"{kind.spelling} selector takes no key"

namespace Selector

def kind : Selector → SelectorKind
  | whole => .whole
  | only _ => .only
  | without _ => .without
  | count _ => .count
  | countAll => .countAll

def key? : Selector → Option Key
  | whole => none
  | only k => some k
  | without k => some k
  | count k => some k
  | countAll => none

/-- The text of the key, if the selector carries one. -/
def keyText? (s : Selector) : Option Text := s.key?.map Key.text

/-- The modifier that an input with this selector has. Both ways of counting share one. -/
def modifier? : Selector → Option Modifier
  | whole => none
  | only _ => some .only
  | without _ => some .without
  | count _ => some .count
  | countAll => some .count

/-- What is written before the variable. -/
def mark (s : Selector) : Text := s.modifier?.elim [] Vocabulary.text

/-- The selector of a kind with an optional key. An empty key is as good as none where
one is required, and is one too many where none is allowed. -/
def make (kind : SelectorKind) (key : Option Text) : Except SelectorError Selector :=
  match kind with
  | .whole => bare .whole
  | .only => keyed .only
  | .without => keyed .without
  | .count => keyed .count
  | .countAll => bare .countAll
where
  keyed (selector : Key → Selector) : Except SelectorError Selector :=
    match key.bind Key.ofText? with
    | some k => .ok (selector k)
    | none => .error (.keyRequired kind)
  bare (selector : Selector) : Except SelectorError Selector :=
    match key with
    | none => .ok selector
    | some _ => .error (.keyForbidden kind)

/-- The selector written with an optional modifier and an optional key. The text of the
whole input is only reported. Which modifier stands there is looked at first. -/
def ofWritten (modifier key : Option Text) (text : Text) : Except Fault Selector :=
  match modifier with
  | none => withKey (some .whole) .only
  | some m =>
    match Vocabulary.ofText? m with
    | some Modifier.without => withKey none .without
    | some Modifier.count => withKey (some .countAll) .count
    | _ => .error (.invalidModifier m text)
where
  withKey (bare : Option Selector) (keyed : Key → Selector) : Except Fault Selector :=
    match key with
    | none => bare.elim (.error (.invalidSelector text)) .ok
    | some k => (Key.ofText? k).elim (.error (.invalidSelector text)) fun k => .ok (keyed k)

/-- A selector is made from its kind and its key. -/
theorem make_kind_keyText? (s : Selector) : make s.kind s.keyText? = .ok s := by
  cases s with
  | whole => rfl
  | countAll => rfl
  | only k => simp [make, make.keyed, kind, keyText?, key?, Key.ofText?, k.nonempty]
  | without k => simp [make, make.keyed, kind, keyText?, key?, Key.ofText?, k.nonempty]
  | count k => simp [make, make.keyed, kind, keyText?, key?, Key.ofText?, k.nonempty]

/-- An excluding modifier needs a key, and a counting one does not. -/
example : ofWritten (some ['!']) none ['x'] = .error (.invalidSelector ['x']) ∧
    ofWritten (some ['&']) none ['x'] = .ok .countAll := ⟨rfl, rfl⟩

end Selector

end WafRules
