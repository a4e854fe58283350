/-!
# Control sequences

A terminal obeys some characters of a text and shows the others.

* `emphasised`: a text between the control sequences that set it off.
* `plain`: the characters of a text that are shown.
* `plain_eq_self`: a text without controls is plain.
-/

namespace Schematic.Text

/-- A text that a terminal sets off from its surroundings. -/
def emphasised (s : String) : String := "\x1b[1m" ++ s ++ "\x1b[0m"

/-- ASCII blanks: the controls that are shown. -/
def isAsciiBlank (c : Char) : Bool := c == ' ' || c == '\t' || c == '\n' || c == '\x0c' || c == '\r'

/-- Whether a character is a control in the ASCII range. -/
def isAsciiControl (c : Char) : Bool := c.toNat < 0x20 || c.toNat == 0x7F

/-- Whether a character outside of control sequences is shown. -/
def isShown (c : Char) : Bool := isAsciiBlank c || !isAsciiControl c

/-- Whether the UTF-8 form of a character holds the byte that ends a string of a device. -/
def endsString (c : Char) : Bool := (String.utf8EncodeChar c).contains 0x9C

/-- Where a text stands with respect to control sequences. -/
inductive Sequence where
  /-- Outside of any. -/
  | outside
  /-- After an escape character. -/
  | escape
  /-- After an escape character and a sign from the space to the slash. -/
  | escapeIntermediate
  /-- In a sequence that ends with a letter or a similar sign. -/
  | control
  /-- At the start of the header of a string for a device. -/
  | device
  /-- In the parameters of such a header. -/
  | deviceParameters
  /-- In such a header, after a sign from the space to the slash. -/
  | deviceIntermediate
  /-- In a string for a device, or in one that is to be ignored. -/
  | string
  /-- In a command to the system, which a bell ends. -/
  | command
  deriving DecidableEq

namespace Sequence

/-- Whether a character is shown where no character before it was. Blanks other than the space are
obeyed in the middle of the shorter sequences. -/
def shows (state : Sequence) (c : Char) : Bool :=
  match state with
  | .outside => isShown c
  | .escape | .escapeIntermediate | .control => isAsciiBlank c && c != ' '
  | .device | .deviceParameters | .deviceIntermediate | .string | .command => false

/-- The state after a character that starts no sequence and breaks none off. -/
def advance (state : Sequence) (c : Char) : Sequence :=
  let n := c.toNat
  match state with
  | .outside => .outside
  | .escape =>
    if c == '[' then .control
    else if c == ']' then .command
    else if c == 'P' then .device
    else if c == 'X' || c == '^' || c == '_' then .string
    else if 0x20 ≤ n && n ≤ 0x2F then .escapeIntermediate
    else if 0x30 ≤ n && n ≤ 0x7E then .outside
    else .escape
  | .escapeIntermediate => if 0x30 ≤ n && n ≤ 0x7E then .outside else .escapeIntermediate
  | .control => if 0x40 ≤ n && n ≤ 0x7E then .outside else .control
  | .device =>
    if 0x20 ≤ n && n ≤ 0x2F then .deviceIntermediate
    else if 0x30 ≤ n && n ≤ 0x3F then .deviceParameters
    else if 0x40 ≤ n && n ≤ 0x7E then .string
    else .device
  | .deviceParameters =>
    if 0x20 ≤ n && n ≤ 0x2F then .deviceIntermediate
    else if 0x3C ≤ n && n ≤ 0x7E then .string
    else .deviceParameters
  | .deviceIntermediate => if 0x30 ≤ n && n ≤ 0x7E then .string else .deviceIntermediate
  | .string => if endsString c then .outside else .string
  | .command => if c == '\x07' then .outside else .command

/-- The state after a character that is not shown. An escape character starts a sequence wherever
it stands, and two controls break off any. -/
def next (state : Sequence) (c : Char) : Sequence :=
  if c == '\x1b' then .escape
  else if c == '\x18' || c == '\x1a' then .outside
  else state.advance c

end Sequence

/-- The characters that are shown, from a state on. Once a character is shown, so are those after
it up to a control, and that control meets the sequence where it was left; a character beyond ASCII
ends the sequence. -/
def plainFrom (state : Sequence) (showing : Bool) : List Char → List Char
  | [] => []
  | c :: r =>
    if state.shows c || showing && isShown c then
      c :: plainFrom (if c.toNat < 0x80 then state else .outside) true r
    else plainFrom (state.next c) false r

/-- The characters of a text that a terminal shows. -/
def plain (s : String) : String := String.ofList (plainFrom .outside false s.toList)

/-- Outside of control sequences, characters that are shown are all kept. -/
theorem plainFrom_outside (showing : Bool) (l : List Char) (h : ∀ c ∈ l, isShown c = true) :
    plainFrom .outside showing l = l := by
  induction l generalizing showing with
  | nil => rfl
  | cons c r ih =>
    have hc : isShown c = true := h c List.mem_cons_self
    have hr := ih true fun d hd => h d (List.mem_cons_of_mem c hd)
    simp [plainFrom, Sequence.shows, hc, hr]

/-- A text without controls is plain. -/
theorem plain_eq_self (s : String) (h : ∀ c ∈ s.toList, isShown c = true) : plain s = s := by
  rw [plain, plainFrom_outside false s.toList h, String.ofList_toList]

end Schematic.Text
