import HeatWatch.Json.Value

/-!
# Reading JSON text

A machine that reads a text character by character. Its state is the stack of lists and objects
that are open around the current place, and the place itself; so values nest to any depth. The
machine stops right after the first complete value, or at the first character that fits no value.

`Scan.run` is structural in the text, which makes the reading of a longer text the continuation
of the reading of its beginning.
-/

namespace HeatWatch.Json.Scan

open Decimal (Digit)
open Decimal.Digit (ofChar?)

/-- The white space of JSON. -/
def isSpace (c : Char) : Bool := c == ' ' || c == '\t' || c == '\n' || c == '\r'

/-! ## Strings -/

/-- Where inside a string the machine is. The characters of a number are held latest first. -/
inductive StringPlace where
  | plain
  | escape
  | hex (seen : List Char)
  deriving DecidableEq, Repr

/-- A string read so far, its latest piece first. -/
structure StringState where
  pieces : List Piece
  place : StringPlace
  deriving DecidableEq, Repr

namespace StringState

/-- The state after the opening quote. -/
def start : StringState := ⟨[], .plain⟩

/-- The outcome of one more character. -/
inductive Step where
  | more (s : StringState)
  | closed (pieces : Quoted)
  | stop (pieces : Quoted) (why : StringStop)
  deriving DecidableEq, Repr

/-- The character that a letter after a backslash stands for. -/
def escaped? : Char → Option Char
  | '"' => some '"'
  | '\\' => some '\\'
  | '/' => some '/'
  | 'b' => some '\x08'
  | 'f' => some '\x0c'
  | 'n' => some '\n'
  | 'r' => some '\r'
  | 't' => some '\t'
  | _ => none

/-- The value of a hexadecimal digit in either case. -/
def hexValue? (c : Char) : Option Nat :=
  let n := c.toNat
  if 48 ≤ n ∧ n ≤ 57 then some (n - 48)
  else if 97 ≤ n ∧ n ≤ 102 then some (n - 87)
  else if 65 ≤ n ∧ n ≤ 70 then some (n - 55)
  else none

/-- The number that four hexadecimal digits stand for. -/
def unit? (cs : List Char) : Option Nat :=
  if cs.length = 4 then cs.foldlM (fun n c => (16 * n + ·) <$> hexValue? c) 0 else none

/-- Reads one more character. A number after `\u` is judged once four bytes of text are there. -/
def step (s : StringState) (c : Char) : Step :=
  match s.place with
  | .plain =>
    if c = '"' then .closed s.pieces.reverse
    else if c = '\\' then .more { s with place := .escape }
    else if c.toNat < 0x20 then .stop s.pieces.reverse .control
    else .more { s with pieces := .char c :: s.pieces }
  | .escape =>
    if c = 'u' then .more { s with place := .hex [] }
    else
      match escaped? c with
      | some d => .more ⟨.char d :: s.pieces, .plain⟩
      | none => .stop s.pieces.reverse .badEscape
  | .hex seen =>
    let seen := c :: seen
    if seen.foldl (fun n c => n + c.utf8Size) 0 < 4 then .more { s with place := .hex seen }
    else
      match unit? seen.reverse with
      | some n => .more ⟨.unit n :: s.pieces, .plain⟩
      | none => .stop s.pieces.reverse .badHex

end StringState

/-! ## Numbers -/

/-- Which part of a number was read last. -/
inductive NumberPlace where
  | sign
  | zero
  | whole
  | point
  | fraction
  | mark
  | markSign
  | exponent
  deriving DecidableEq, Repr

/-- A number read so far, the latest digit of each part first. -/
structure NumberState where
  negative : Bool
  whole : List Digit
  fraction : List Digit
  exponentNegative : Bool
  exponent : List Digit
  place : NumberPlace
  deriving DecidableEq, Repr

namespace NumberState

/-- The state after a minus sign. -/
def minus : NumberState := ⟨true, [], [], false, [], .sign⟩

/-- The state after the first digit of a number without a sign. -/
def first (d : Digit) : NumberState :=
  ⟨false, [d], [], false, [], if d.val = 0 then .zero else .whole⟩

/-- The number, if it is complete where it stands. -/
def numeral? (s : NumberState) : Option Numeral :=
  match s.place with
  | .zero | .whole | .fraction => some ⟨s.negative, s.whole.reverse, s.fraction.reverse, none⟩
  | .exponent =>
    some ⟨s.negative, s.whole.reverse, s.fraction.reverse,
      some ⟨s.exponentNegative, s.exponent.reverse⟩⟩
  | .sign | .point | .mark | .markSign => none

/-- The outcome of one more character: the number goes on, ends before it, or is wrong. -/
inductive Step where
  | more (s : NumberState)
  | ended (n : Numeral)
  | wrong
  deriving DecidableEq, Repr

/-- A number that does not go on: it has ended if it is complete. -/
def finish (s : NumberState) : Step :=
  match s.numeral? with
  | some n => .ended n
  | none => .wrong

/-- Reads one more character. -/
def step (s : NumberState) (c : Char) : Step :=
  match ofChar? c with
  | some d =>
    match s.place with
    | .sign => .more { s with whole := [d], place := if d.val = 0 then .zero else .whole }
    | .zero => .wrong
    | .whole => .more { s with whole := d :: s.whole }
    | .point | .fraction => .more { s with fraction := d :: s.fraction, place := .fraction }
    | .mark | .markSign | .exponent =>
      .more { s with exponent := d :: s.exponent, place := .exponent }
  | none =>
    match s.place with
    | .zero | .whole =>
      if c = '.' then .more { s with place := .point }
      else if c = 'e' ∨ c = 'E' then .more { s with place := .mark }
      else s.finish
    | .fraction => if c = 'e' ∨ c = 'E' then .more { s with place := .mark } else s.finish
    | .mark =>
      if c = '+' then .more { s with place := .markSign }
      else if c = '-' then .more { s with exponentNegative := true, place := .markSign }
      else s.finish
    | .sign | .point | .markSign | .exponent => s.finish

end NumberState

/-! ## The machine -/

/-- A list or object that is open around the current value, with what it holds so far, the latest
first. -/
inductive Frame where
  | item (before : List Value)
  | member (before : List Member) (name : Quoted)
  deriving Repr

/-- Where the machine is. What a list or an object holds so far stands latest first. -/
inductive Place where
  /-- A value is due. -/
  | value
  | firstItem
  | afterItem (items : List Value)
  | nextItem (items : List Value)
  | firstName
  | afterMember (members : List Member)
  | nextName (members : List Member)
  | name (members : List Member) (s : StringState)
  | colon (members : List Member) (name : Quoted)
  /-- These letters of a literal name are still due. -/
  | word (w : Word) (left : List Char)
  | number (s : NumberState)
  | string (s : StringState)
  deriving Repr

/-- The open lists and objects, innermost first, and the place inside the innermost one. Inside a
list or object but outside its values, `frames` are those around that list or object. -/
structure State where
  frames : List Frame
  place : Place
  deriving Repr

/-- The state before a text. -/
def start : State := ⟨[], .value⟩

/-- The fragment of the whole text, given the one inside the frames. -/
def unwind : List Frame → Fragment → Fragment
  | [], f => f
  | .item before :: fs, f => unwind fs (.item before.reverse f)
  | .member before name :: fs, f => unwind fs (.member before.reverse name f)

/-- The outcome of one more character. `whole` tells whether the character belongs to the
value. -/
inductive Step where
  | more (s : State)
  | whole (v : Value) (taken : Bool)
  | broken (f : Fragment)

/-- A value is complete: it goes into the innermost frame. -/
def push (v : Value) : List Frame → Option State
  | [] => none
  | .item before :: fs => some ⟨fs, .afterItem (v :: before)⟩
  | .member before name :: fs => some ⟨fs, .afterMember ((name, v) :: before)⟩

/-- A value is complete with the current character. -/
def complete (v : Value) (frames : List Frame) : Step :=
  match push v frames with
  | some s => .more s
  | none => .whole v true

/-- The current character is the first one of a value. -/
def startValue (frames : List Frame) (c : Char) : Step :=
  if c = '"' then .more ⟨frames, .string .start⟩
  else if c = '[' then .more ⟨frames, .firstItem⟩
  else if c = '{' then .more ⟨frames, .firstName⟩
  else if c = 'n' then .more ⟨frames, .word .null (Word.null.letters.drop 1)⟩
  else if c = 't' then .more ⟨frames, .word .true (Word.true.letters.drop 1)⟩
  else if c = 'f' then .more ⟨frames, .word .false (Word.false.letters.drop 1)⟩
  else if c = '-' then .more ⟨frames, .number .minus⟩
  else
    match ofChar? c with
    | some d => .more ⟨frames, .number (.first d)⟩
    | none => .broken (unwind frames (.nothing .stray))

/-- A name is due, and `c` is no white space. -/
def startName (frames : List Frame) (members : List Member) (c : Char) : Step :=
  if c = '"' then .more ⟨frames, .name members .start⟩
  else .broken (unwind frames (.object members.reverse .notAName))

/-- A character after an item. -/
def stepAfterItem (frames : List Frame) (items : List Value) (c : Char) : Step :=
  if isSpace c then .more ⟨frames, .afterItem items⟩
  else if c = ',' then .more ⟨frames, .nextItem items⟩
  else if c = ']' then complete (.list items.reverse) frames
  else .broken (unwind frames (.list items.reverse .stray))

/-- A character after a member. -/
def stepAfterMember (frames : List Frame) (members : List Member) (c : Char) : Step :=
  if isSpace c then .more ⟨frames, .afterMember members⟩
  else if c = ',' then .more ⟨frames, .nextName members⟩
  else if c = '}' then complete (.object members.reverse) frames
  else .broken (unwind frames (.object members.reverse .stray))

/-- The current character stands after a complete value. -/
def stepAfterValue (v : Value) (frames : List Frame) (c : Char) : Step :=
  match frames with
  | [] => .whole v false
  | .item before :: fs => stepAfterItem fs (v :: before) c
  | .member before name :: fs => stepAfterMember fs ((name, v) :: before) c

/-- Reads one more character. -/
def State.step (s : State) (c : Char) : Step :=
  let frames := s.frames
  match s.place with
  | .value => if isSpace c then .more s else startValue frames c
  | .firstItem =>
    if isSpace c then .more s
    else if c = ']' then complete (.list []) frames
    else startValue (.item [] :: frames) c
  | .afterItem items => stepAfterItem frames items c
  | .nextItem items =>
    if isSpace c then .more s
    else if c = ']' then .broken (unwind frames (.list items.reverse .closedAfterComma))
    else startValue (.item items :: frames) c
  | .firstName =>
    if isSpace c then .more s
    else if c = '}' then complete (.object []) frames
    else startName frames [] c
  | .afterMember members => stepAfterMember frames members c
  | .nextName members =>
    if isSpace c then .more s
    else if c = '}' then .broken (unwind frames (.object members.reverse .closedAfterComma))
    else startName frames members c
  | .name members t =>
    match t.step c with
    | .more t => .more ⟨frames, .name members t⟩
    | .closed name => .more ⟨frames, .colon members name⟩
    | .stop ps why => .broken (unwind frames (.object members.reverse (.name ps why)))
  | .colon members name =>
    if isSpace c then .more s
    else if c = ':' then .more ⟨.member members name :: frames, .value⟩
    else .broken (unwind frames (.object members.reverse (.noColon name)))
  | .word w left =>
    match left with
    | [] => stepAfterValue w.value frames c
    | l :: ls =>
      if c = l then
        if ls.isEmpty then complete w.value frames else .more ⟨frames, .word w ls⟩
      else .broken (unwind frames (.nothing (.word w false)))
  | .number n =>
    match n.step c with
    | .more n => .more ⟨frames, .number n⟩
    | .ended n => stepAfterValue (.number n) frames c
    | .wrong => .broken (unwind frames (.nothing (.number false)))
  | .string t =>
    match t.step c with
    | .more t => .more ⟨frames, .string t⟩
    | .closed ps => complete (.string ps) frames
    | .stop ps why => .broken (unwind frames (.nothing (.string ps why)))

/-- The text ends here. -/
def State.finish (s : State) : Reading :=
  let stop (f : Fragment) : Reading := .broken (unwind s.frames f)
  match s.place with
  | .value => stop (.nothing .missing)
  | .firstItem => stop (.list [] .cut)
  | .afterItem items => stop (.list items.reverse .cut)
  | .nextItem items => stop (.list items.reverse .cutAfterComma)
  | .firstName => stop (.object [] .cut)
  | .afterMember members => stop (.object members.reverse .cut)
  | .nextName members => stop (.object members.reverse .cutAfterComma)
  | .name members t => stop (.object members.reverse (.name t.pieces.reverse .cut))
  | .colon members name => stop (.object members.reverse (.cutBeforeColon name))
  | .word w _ => stop (.nothing (.word w true))
  | .number n =>
    match n.numeral? with
    | none => stop (.nothing (.number true))
    | some n =>
      match s.frames with
      | [] => .whole (.number n) []
      | .item before :: fs => .broken (unwind fs (.list (.number n :: before).reverse .cut))
      | .member before name :: fs =>
        .broken (unwind fs (.object ((name, .number n) :: before).reverse .cut))
  | .string t => stop (.nothing (.string t.pieces.reverse .cut))

/-- Reads a text from a state on. -/
def run : State → List Char → Reading
  | s, [] => s.finish
  | s, c :: cs =>
    match s.step c with
    | .more s => run s cs
    | .whole v taken => .whole v (if taken then cs else c :: cs)
    | .broken f => .broken f

end Scan

/-- What a text says. -/
def Reading.ofText (cs : List Char) : Reading := Scan.run Scan.start cs

end HeatWatch.Json
