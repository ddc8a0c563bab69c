import WafRules.Text.Escaped

/-!
# Tokens

The classes of words that the grammar does not take apart. Scanning a token takes the
longest beginning of the text that is of the class, or fails if no beginning is.
-/

namespace WafRules

/-- A class of words. -/
inductive Token where
  /-- A letter, then letters, digits and underscores. -/
  | inputName
  /-- Anything but white space and the bar. -/
  | key
  /-- One character that may begin an operator without a name. -/
  | implicitStart
  /-- An at sign, then letters and digits. -/
  | operatorName
  /-- Escaped text for the double quote, which may be empty. -/
  | operatorArgument
  /-- Letters. -/
  | actionName
  /-- Escaped text for the single quote, between single quotes. -/
  | quotedArgument
  /-- Anything but white space, commas and quotes. -/
  | bareArgument
  deriving DecidableEq

/-- A letter, a digit or an underscore. -/
def isWordChar (c : Char) : Bool := c.isAlphanum || c == '_'

def isKeyChar (c : Char) : Bool := c != '|' && !isWhiteSpace c

def isImplicitStart (c : Char) : Bool := !isWhiteSpace c && c != '@' && c != '!'

def isBareChar (c : Char) : Bool := c != ',' && c != '\'' && c != '"' && !isWhiteSpace c

/-- The longest beginning of characters of the class, which must not be empty, and
what is left behind it. -/
def takeRun? (p : Char → Bool) (s : Text) : Option (Text × Text) :=
  if (s.takeWhile p).isEmpty then none else some (s.takeWhile p, s.dropWhile p)

theorem append_of_takeRun?_eq_some {p : Char → Bool} {s w r : Text}
    (h : takeRun? p s = some (w, r)) : w ++ r = s := by
  unfold takeRun? at h
  split at h
  · contradiction
  · cases h; exact List.takeWhile_append_dropWhile

namespace Token

/-- The longest word of the class at the beginning of a text, and what is left
behind it. -/
def scan : Token → Text → Option (Text × Text)
  | inputName, c :: s =>
    if c.isAlpha then some (c :: s.takeWhile isWordChar, s.dropWhile isWordChar) else none
  | key, s => takeRun? isKeyChar s
  | implicitStart, c :: s => if isImplicitStart c then some ([c], s) else none
  | operatorName, c :: s =>
    if c = '@' then (takeRun? Char.isAlphanum s).map fun (w, r) => (c :: w, r) else none
  | operatorArgument, s => some (escapedPrefix '"' s)
  | actionName, s => takeRun? Char.isAlpha s
  | quotedArgument, c :: s =>
    if c = '\'' then
      match escapedPrefix '\'' s with
      | (w, d :: r) => if d = '\'' then some (c :: (w ++ [d]), r) else none
      | (_, []) => none
    else none
  | bareArgument, s => takeRun? isBareChar s
  | _, [] => none

theorem append_of_scan_eq_some {t : Token} {s w r : Text} (h : t.scan s = some (w, r)) :
    w ++ r = s := by
  cases t with
  | key => exact append_of_takeRun?_eq_some h
  | actionName => exact append_of_takeRun?_eq_some h
  | bareArgument => exact append_of_takeRun?_eq_some h
  | operatorArgument =>
    have whole := escapedPrefix_append '"' s
    rwa [show escapedPrefix '"' s = (w, r) from Option.some.inj h] at whole
  | inputName =>
    cases s with
    | nil => contradiction
    | cons c s =>
      simp only [scan] at h
      split at h
      · cases h; simp [List.takeWhile_append_dropWhile]
      · contradiction
  | implicitStart =>
    cases s with
    | nil => contradiction
    | cons c s =>
      simp only [scan] at h
      split at h
      · cases h; rfl
      · contradiction
  | operatorName =>
    cases s with
    | nil => contradiction
    | cons c s =>
      simp only [scan] at h
      split at h
      · obtain ⟨⟨w', r'⟩, hw, he⟩ := Option.map_eq_some_iff.mp h
        cases he
        rw [List.cons_append, append_of_takeRun?_eq_some hw]
      · contradiction
  | quotedArgument =>
    cases s with
    | nil => contradiction
    | cons c s =>
      have whole := escapedPrefix_append '\'' s
      simp only [scan] at h
      split at h
      · split at h
        · split at h <;> simp_all
          obtain ⟨rfl, rfl⟩ := h
          simpa using whole
        · contradiction
      · contradiction

end Token

end WafRules
