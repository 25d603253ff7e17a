/-
UriExpansion/Calendar/Pattern.lean

Writing dates and times after a pattern, in the C locale.

A pattern is text with conversions `%x`.  The three conversions `%f`, `%z`
and `%Z` know microseconds and offsets; they are replaced first.  Every other
conversion may carry flags (`-` no padding, `_` spaces, `0` zeros, `^` upper
case, `#` opposite case), a least width and one of the modifiers `E` and `O`,
which change nothing but are not welcome everywhere.  A conversion that does
not exist is copied as it stands.  A date counts as midnight, and a time of
day as on 1 January 1900.  A result that is out of proportion to its pattern
is given up for an empty one.
-/
import UriExpansion.Calendar
import UriExpansion.Fault
import UriExpansion.Text.UpperCase

namespace UriExpansion.Calendar

/-- The day names, Monday first. -/
def dayNames : List String :=
  ["Monday", "Tuesday", "Wednesday", "Thursday", "Friday", "Saturday", "Sunday"]

/-- The month names. -/
def monthNames : List String :=
  ["January", "February", "March", "April", "May", "June", "July", "August", "September",
    "October", "November", "December"]

/-- The name of a day of the week. -/
def dayName (d : Date) : Text := lit (dayNames.getD d.weekday "?")

/-- The name of a month. -/
def monthName (d : Date) : Text := lit (monthNames.getD (d.month - 1) "?")

/-- The text of an offset for `%z`. -/
def zone (offset : Option Int) : Text := (offset.map (offsetText [])).getD []

/-- The text of an offset for `%Z`. -/
def zoneName : Option Int → Text
  | none => []
  | some 0 => lit "UTC"
  | some offset => lit "UTC" ++ offsetText (lit ":") offset

/-- The pattern with `%f`, `%z` and `%Z` replaced. -/
def substitute (m : Moment) : Text → Text
  | [] => []
  | [c] => [c]
  | c :: d :: rest =>
    if c = '%' then
      if d = 'f' then Text.padded 6 m.clock.microsecond ++ substitute m rest
      else if d = 'z' then zone m.offset ++ substitute m rest
      else if d = 'Z' then zoneName m.offset ++ substitute m rest
      else c :: d :: substitute m rest
    else c :: substitute m (d :: rest)

/-- How a conversion is padded and cased. -/
structure Layout where
  /-- The padding asked for, if any; `some none` means none at all. -/
  fill : Option (Option Char)
  upper : Bool
  swapped : Bool
  width : Option Nat

/-- Reads one flag. -/
def Layout.withFlag? (l : Layout) (c : CodePoint) : Option Layout :=
  if c = '-' then some { l with fill := some none }
  else if c = '_' then some { l with fill := some (some ' ') }
  else if c = '0' then some { l with fill := some (some '0') }
  else if c = '^' then some { l with upper := true }
  else if c = '#' then some { l with swapped := true }
  else none

/-- What the opposite case of a word is. -/
inductive Swap
  | upper
  | lower
  /-- The word has none. -/
  | neither
  /-- The word is never cased. -/
  | fixed

/-- What a conversion yields before padding. -/
inductive Part
  /-- Nothing, whatever the width. -/
  | absent
  /-- A number with its usual least width and padding. -/
  | number (value width : Nat) (fill : Char)
  | word (text : Text) (swap : Swap)

/-- A part laid out. -/
def Part.layOut (l : Layout) : Part → Text
  | absent => []
  | number value width fill =>
    match l.fill with
    | some none => Text.paddedWith ' ' (l.width.getD 0) value
    | some (some c) => Text.paddedWith c (max (l.width.getD 0) width) value
    | none => Text.paddedWith fill (max (l.width.getD 0) width) value
  | word text swap =>
    let cased := match swap with
      | .upper => if l.upper || l.swapped then text.toUpper else text
      | .lower => if l.swapped then Text.toLower text else if l.upper then text.toUpper else text
      | .neither => if l.upper then text.toUpper else text
      | .fixed => text
    let fill : Char := if l.fill = some (some '0') then '0' else ' '
    List.replicate (l.width.getD 0 - cased.length) (CodePoint.scalar fill) ++ cased

/-- The hour on a twelve-hour dial. -/
def dialHour (c : Clock) : Nat := if c.hour % 12 = 0 then 12 else c.hour % 12

/-- Morning or afternoon. -/
def halfDay (c : Clock) : Text := if c.hour < 12 then lit "AM" else lit "PM"

/-- The week of the year when weeks begin on the day `first` (Monday being 0)
and days before the first such day are in week 0. -/
def weekOfYear (first : Nat) (d : Date) : Nat :=
  (d.dayOfYear + 6 - (d.weekday + 7 - first) % 7) / 7

/-- Two digits of a number. -/
def two (n : Nat) : Text := Text.padded 2 n

/-- `HH:MM:SS`. -/
def hms (c : Clock) : Text := two c.hour ++ lit ":" ++ two c.minute ++ lit ":" ++ two c.second

/-- Seconds since the beginning of 1970. -/
def epochSeconds (m : Moment) : Int :=
  ((m.date.ordinal : Int) - 719163) * 86400 + (m.clock.total / 1000000 : Nat)

/-- The part for a conversion letter.  The seconds of `%s` are too large for a
number of this kind: they are laid out as a word. -/
def part? (m : Moment) (letter : Char) : Option Part :=
  let d := m.date
  let c := m.clock
  let slashed := two d.month ++ lit "/" ++ two d.day ++ lit "/" ++ two (d.year % 100)
  match letter with
  | 'a' => some (.word ((dayName d).take 3) .upper)
  | 'A' => some (.word (dayName d) .upper)
  | 'b' => some (.word ((monthName d).take 3) .upper)
  | 'h' => some (.word ((monthName d).take 3) .upper)
  | 'B' => some (.word (monthName d) .upper)
  | 'c' => some (.word ((dayName d).take 3 ++ lit " " ++ (monthName d).take 3 ++ lit " "
      ++ Text.paddedWith ' ' 2 d.day ++ lit " " ++ hms c ++ lit " " ++ Text.ofNat d.year) .neither)
  | 'C' => some (.number (d.year / 100) 1 '0')
  | 'd' => some (.number d.day 2 '0')
  | 'D' => some (.word slashed .neither)
  | 'x' => some (.word slashed .neither)
  | 'e' => some (.number d.day 2 ' ')
  | 'F' => some (.word (Text.ofNat d.year ++ lit "-" ++ two d.month ++ lit "-" ++ two d.day) .neither)
  | 'g' => some (.number (d.isoWeek.1 % 100) 2 '0')
  | 'G' => some (.number d.isoWeek.1 1 '0')
  | 'H' => some (.number c.hour 2 '0')
  | 'I' => some (.number (dialHour c) 2 '0')
  | 'j' => some (.number d.dayOfYear 3 '0')
  | 'k' => some (.number c.hour 2 ' ')
  | 'l' => some (.number (dialHour c) 2 ' ')
  | 'm' => some (.number d.month 2 '0')
  | 'M' => some (.number c.minute 2 '0')
  | 'n' => some (.word (lit "\n") .neither)
  | 'p' => some (.word (halfDay c) .lower)
  | 'P' => some (.word (Text.toLower (halfDay c)) .fixed)
  | 'r' => some (.word (two (dialHour c) ++ lit ":" ++ two c.minute ++ lit ":" ++ two c.second
      ++ lit " " ++ halfDay c) .neither)
  | 'R' => some (.word (two c.hour ++ lit ":" ++ two c.minute) .neither)
  | 's' => some (.word (Text.ofInt (epochSeconds m)) .neither)
  | 'S' => some (.number c.second 2 '0')
  | 't' => some (.word (lit "\t") .neither)
  | 'T' => some (.word (hms c) .neither)
  | 'X' => some (.word (hms c) .neither)
  | 'u' => some (.number (d.weekday + 1) 1 '0')
  | 'U' => some (.number (weekOfYear 6 d) 2 '0')
  | 'V' => some (.number d.isoWeek.2 2 '0')
  | 'w' => some (.number ((d.weekday + 1) % 7) 1 '0')
  | 'W' => some (.number (weekOfYear 0 d) 2 '0')
  | 'y' => some (.number (d.year % 100) 2 '0')
  | 'Y' => some (.number d.year 1 '0')
  | 'z' => some .absent
  | 'Z' => some (.word [] .neither)
  | '%' => some (.word (lit "%") .neither)
  | _ => none

/-! ### Conversions -/

/-- The two modifiers. -/
inductive Modification
  | alternativeEra
  | otherDigits

/-- The letters that a modifier may stand before. -/
def Modification.letters : Modification → List Char
  | alternativeEra => "%CPRTXYZcnprstuxyz".toList
  | otherDigits => "%BCGHIMPRSTUVWZbdeghjklmnprstuwyz".toList

/-- A conversion as it is read. -/
structure Conversion where
  layout : Layout
  modification : Option Modification
  /-- The letter; none if the pattern ends before it. -/
  letter : Option Char
  /-- The number of code points behind the percent sign. -/
  length : Nat

/-- The flags and the width at the beginning of a text, and how many code
points they take up. -/
def readLayout (l : Layout) : Text → Layout × Nat
  | [] => (l, 0)
  | c :: rest =>
    match (if l.width.isNone then l.withFlag? c else none) with
    | some l' =>
      let (final, count) := readLayout l' rest
      (final, count + 1)
    | none =>
      if c.isDigit then
        let (final, count) :=
          readLayout { l with width := some (l.width.getD 0 * 10 + c.digitValue) } rest
        (final, count + 1)
      else (l, 0)

/-- The conversion behind a percent sign. -/
def Conversion.read (t : Text) : Conversion :=
  let (layout, count) := readLayout ⟨none, false, false, none⟩ t
  let modified := fun (m : Modification) (rest : Text) =>
    (⟨layout, some m, rest.head?.bind CodePoint.char?, count + 1 + min rest.length 1⟩ : Conversion)
  match t.drop count with
  | .scalar 'E' :: rest => modified .alternativeEra rest
  | .scalar 'O' :: rest => modified .otherDigits rest
  | rest => ⟨layout, none, rest.head?.bind CodePoint.char?, count + min rest.length 1⟩

/-- The part that a conversion yields, if it exists. -/
def Conversion.part? (m : Moment) (c : Conversion) : Option Part :=
  c.letter.bind fun letter =>
    match c.modification with
    | some e => if e.letters.contains letter then Calendar.part? m letter else none
    | none => Calendar.part? m letter

/-- A conversion that does not exist, as it stands.  For the short name of a
month the case is settled before the modifier is refused. -/
def Conversion.copied (source : Text) (c : Conversion) : Part :=
  .word source (if c.letter = some 'b' ∨ c.letter = some 'h' then .upper else .neither)

/-- Writes the conversions of a pattern, no part being wider than `limit`;
`skip` code points have been read already as part of a conversion. -/
def write (m : Moment) (limit skip : Nat) : Text → Text
  | [] => []
  | c :: rest =>
    match skip with
    | n + 1 => write m limit n rest
    | 0 =>
      if c = '%' then
        let conversion := Conversion.read rest
        let copied := conversion.copied (c :: rest.take conversion.length)
        let layout :=
          { conversion.layout with width := conversion.layout.width.map fun w => min w limit }
        ((conversion.part? m).getD copied).layOut layout ++ write m limit conversion.length rest
      else c :: write m limit 0 rest

/-- The length that no result of a pattern reaches: the first of 1024, 2048,
4096, … that is at least 256 times the length of the pattern. -/
def lengthLimit (pattern : Text) : Nat :=
  1024 * Nat.pow 2 ((256 * pattern.length - 1).log2 + 1 - 10)

/-- A moment written after a pattern.  A pattern with a surrogate cannot be
encoded, and a pattern must not hold a zero character. -/
def format (pattern : Text) (m : Moment) : Except Fault Text :=
  if pattern.any CodePoint.isSurrogate then .error .unencodable
  else if pattern.contains (CodePoint.scalar '\x00') then .error .zeroCharacter
  else
    let pattern := substitute m pattern
    let limit := lengthLimit pattern
    let result := write m limit 0 pattern
    .ok (if result.length < limit then result else [])

/-- A date as the moment at which it begins. -/
def ofDate (d : Date) : Moment := ⟨d, Clock.midnight, none⟩

/-- A time of day on 1 January 1900. -/
def ofTimeOfDay (t : TimeOfDay) : Moment := ⟨⟨1900, 1, 1⟩, t.clock, t.offset⟩

end UriExpansion.Calendar
