/-!
# Visible text

What a text leaves behind when it is printed to something that is no terminal: control characters
other than white space are taken out, and with them the sequences by which a terminal is controlled.
A text without control characters stays as it is (`visible_eq_self`).
-/

namespace BrokerTopology.Text

/-- What is read: text, or a part of a control sequence. -/
inductive Mode where
  | text
  /-- Behind an escape character. -/
  | escape
  /-- Behind an escape character and marks, up to a final character. -/
  | marked
  /-- Behind an escape character and a bracket, up to a final character. -/
  | control
  /-- A command of the operating system, up to a bell. -/
  | command
  /-- A string for a device, which only another sequence ends. -/
  | device
  deriving DecidableEq, Repr

/-- The control characters that are white space. -/
def isSpacing (c : Char) : Bool :=
  c == '\t' || c == '\n' || c == '\x0c' || c == '\r'

/-- Whether a character is a control character of ASCII. -/
def isControl (c : Char) : Bool :=
  c.toNat < 0x20 || c.toNat == 0x7F

/-- The mode behind the character that follows an escape character. -/
def Mode.behindEscape (c : Char) : Mode :=
  if c = '[' then .control
  else if c = ']' then .command
  else if c = 'P' ∨ c = 'X' ∨ c = '^' ∨ c = '_' then .device
  else if 0x20 ≤ c.toNat ∧ c.toNat < 0x30 then .marked
  else if 0x30 ≤ c.toNat ∧ c.toNat < 0x7F then .text
  else .escape

/-- The mode behind a character. An escape character begins a sequence anywhere, and two others end
every sequence. White space inside a sequence ends it, too. -/
def Mode.next (m : Mode) (c : Char) : Mode :=
  if c = '\x1b' then .escape
  else if c = '\x18' ∨ c = '\x1a' then .text
  else
    match m with
    | .text => .text
    | .escape => if isSpacing c then .text else .behindEscape c
    | .marked => if isSpacing c ∨ (0x30 ≤ c.toNat ∧ c.toNat < 0x7F) then .text else .marked
    | .control => if isSpacing c ∨ (0x40 ≤ c.toNat ∧ c.toNat < 0x7F) then .text else .control
    | .command => if c = '\x07' then .text else .command
    | .device => .device

/-- Whether a character is shown. -/
def Mode.shows (m : Mode) (c : Char) : Bool :=
  match m with
  | .text => isSpacing c || !isControl c
  | .escape | .marked | .control => isSpacing c
  | .command | .device => false

/-- The characters that are shown. -/
def visibleFrom (m : Mode) : List Char → List Char
  | [] => []
  | c :: cs => if m.shows c then c :: visibleFrom (m.next c) cs else visibleFrom (m.next c) cs

/-- The text that is shown. -/
def visible (s : String) : String :=
  String.ofList (visibleFrom .text s.toList)

/-- No character of text begins a sequence but a control character. -/
theorem Mode.next_text {c : Char} (h : isControl c = false) : Mode.text.next c = .text := by
  have escape : c ≠ '\x1b' := by rintro rfl; simp [isControl] at h
  simp [Mode.next, escape]

/-- Characters that are no control characters are all shown. -/
theorem visibleFrom_text {cs : List Char} (h : ∀ c ∈ cs, isControl c = false) :
    visibleFrom .text cs = cs := by
  induction cs with
  | nil => rfl
  | cons c cs ih =>
    have hc := h c (by simp)
    simp [visibleFrom, Mode.shows, Mode.next_text hc, hc, ih fun d hd => h d (by simp [hd])]

/-- A text without control characters is shown as it is. -/
theorem visible_eq_self {s : String} (h : ∀ c ∈ s.toList, isControl c = false) : visible s = s := by
  rw [visible, visibleFrom_text h, String.ofList_toList]

end BrokerTopology.Text
