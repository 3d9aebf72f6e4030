import QueryLint.Pattern.Basic
import QueryLint.Pattern.Property
import QueryLint.Text.Bytes

/-!
QueryLint.Pattern.Reader — reading a regular expression from its text.

The notation: literals, `.`, bracketed classes with nesting and set operations, the classes `\d`,
`\s`, `\w` and their complements, named classes such as `[:alpha:]`, properties such as
`\p{Greek}`, groups, alternatives, repetitions with an optional `?` that makes them lazy, anchors,
and flags such as `(?i)` that hold to the end of the group they stand in. There are no back
references and no look-around.

`Pattern.read?` answers nothing for text that is not a regular expression, that nests too deep or
that would take too much memory to match.
-/

namespace QueryLint

open Text

namespace Pattern.Reader

/-! ## 1. State -/

/-- What the flags switch. -/
structure Flags where
  /-- Letters match in either case. -/
  ignoreCase : Bool := false
  /-- `^` and `$` match at the ends of lines. -/
  multiLine : Bool := false
  /-- `.` matches line ends too. -/
  dotAll : Bool := false
  /-- `*` and its kin are lazy, and `*?` and its kin greedy. -/
  swapGreed : Bool := false
  /-- A carriage return counts as a line end. -/
  crlf : Bool := false
  /-- Blanks and comments in the pattern are passed over. -/
  verbose : Bool := false
  /-- The named classes hold ASCII characters only. -/
  ascii : Bool := false

/-- What is left to read, the flags in force, the group names in use and the number of groups and
classes that are open. -/
structure State where
  rest : List Char
  flags : Flags := {}
  names : List (List Char) := []
  levels : Nat := 0

/-- A reader, which may refuse the text. -/
abbrev Reading := StateT State Option

/-- The next character, if any. -/
def peek : Reading (Option Char) := do return (← get).rest.head?

/-- The character after the next. -/
def peekSecond : Reading (Option Char) := do return (← get).rest.tail.head?

/-- Pass over one character. -/
def skip : Reading Unit := modify fun s => { s with rest := s.rest.tail }

/-- Pass over the given character if it is next. -/
def skipIf (c : Char) : Reading Bool := do
  if (← peek) = some c then
    skip
    return true
  return false

/-- The next character, which has to be there. -/
def next : Reading Char := do
  match ← peek with
  | some c => do
    skip
    return c
  | none => failure

/-- The text after blanks and comments. -/
def afterBlanks : List Char → List Char
  | [] => []
  | c :: cs => if c = '#' then comment cs else if isBlank c then afterBlanks cs else c :: cs
where
  /-- The text after the rest of a comment. -/
  comment : List Char → List Char
    | [] => []
    | c :: cs => if c = '\n' then afterBlanks cs else comment cs

/-- In verbose mode, pass over blanks and comments. -/
def skipBlanks : Reading Unit :=
  modify fun s => if s.flags.verbose then { s with rest := afterBlanks s.rest } else s

/-- The next characters that satisfy `ok`, at most `n` of them, with blanks passed over in verbose
mode. -/
def collect (ok : Char → Bool) : Nat → Reading (List Char)
  | 0 => return []
  | n + 1 => do
    skipBlanks
    match ← peek with
    | some c => do
      if !ok c then return []
      skip
      return c :: (← collect ok n)
    | none => return []

/-- All of the next characters that satisfy `ok`, with blanks passed over in verbose mode. -/
def collectAll (ok : Char → Bool) : Reading (List Char) := do
  collect ok (← get).rest.length

/-- How deep groups, classes and what they are made of may nest. -/
def depthLimit : Nat := 250

/-- Read something one level further in. -/
def inside {α : Type} (body : Reading α) : Reading α := do
  if depthLimit ≤ (← get).levels then failure
  modify fun s => { s with levels := s.levels + 1 }
  let a ← body
  modify fun s => { s with levels := s.levels - 1 }
  return a

/-! ## 2. Sets of characters -/

/-- A set as the flags make it: closed under case if case is ignored. -/
def folded (f : Flags) (s : CharSet) : CharSet :=
  if f.ignoreCase then
    if f.ascii then .inter (.anyCase s) .ascii else .anyCase s
  else s

/-- The set of a literal character. Where the named classes are ASCII, so is the case of
letters. -/
def literal (f : Flags) (c : Char) : CharSet :=
  if f.ascii && 0x80 ≤ c.toNat then .single c else folded f (.single c)

/-- A complement, which takes in characters that are not ASCII. -/
def complement (f : Flags) (s : CharSet) : Reading CharSet :=
  if f.ascii then failure else pure (.compl s)

/-- A named class as the flags make it. -/
def namedSet (f : Flags) (c : CharClass) : CharSet :=
  if f.ascii then .inter (.named c) .ascii else .named c

/-- The classes that are named inside brackets, all of ASCII characters. -/
def asciiClass? (name : String) : Option CharSet :=
  let range (a b : Char) : Nat × Nat := (a.toNat, b.toNat)
  let digit := range '0' '9'
  let upper := range 'A' 'Z'
  let lower := range 'a' 'z'
  match name with
  | "alnum" => some (.ranges [digit, upper, lower])
  | "alpha" => some (.ranges [upper, lower])
  | "ascii" => some .ascii
  | "blank" => some (.ofList ['\t', ' '])
  | "cntrl" => some (.ranges [(0, 0x1F), (0x7F, 0x7F)])
  | "digit" => some (.ranges [digit])
  | "graph" => some (.ranges [range '!' '~'])
  | "lower" => some (.ranges [lower])
  | "print" => some (.ranges [range ' ' '~'])
  | "punct" => some (.ranges [range '!' '/', range ':' '@', range '[' (Char.ofNat 0x60),
      (0x7B, 0x7E)])
  | "space" => some (.ranges [(9, 13), (32, 32)])
  | "upper" => some (.ranges [upper])
  | "word" => some (.ranges [digit, upper, lower, range '_' '_'])
  | "xdigit" => some (.ranges [digit, range 'A' 'F', range 'a' 'f'])
  | _ => none

/-- A named class in brackets, `[:name:]` or `[:^name:]`, at the start of the text, with what
follows it. -/
def bracketedName? : List Char → Option (CharSet × Bool × List Char)
  | '[' :: ':' :: cs =>
    let negated := cs.head? == some '^'
    let cs := if negated then cs.tail else cs
    let name := cs.takeWhile (· != ':')
    match cs.drop name.length with
    | ':' :: ']' :: rest => (asciiClass? (String.ofList name)).map (·, negated, rest)
    | _ => none
  | _ => none

/-! ## 3. Escapes -/

/-- What an escape stands for. -/
inductive Escape where
  | literal (c : Char)
  | set (s : CharSet)
  | anchor (a : Anchor)

/-- Value of a hexadecimal digit. -/
def hexValue? (c : Char) : Option Nat :=
  if c.isDigit then some (c.toNat - '0'.toNat)
  else if 'a' ≤ c && c ≤ 'f' then some (c.toNat - 'a'.toNat + 10)
  else if 'A' ≤ c && c ≤ 'F' then some (c.toNat - 'A'.toNat + 10)
  else none

/-- The character written by hexadecimal digits, at least one. -/
def hexChar (digits : List Char) : Reading Char := do
  let values ← (digits.mapM hexValue? : Option (List Nat))
  let n := values.foldl (fun n d => 16 * n + d) 0
  if digits.isEmpty || !n.isValidChar then failure
  return Char.ofNat n

/-- A character by its code point: in braces, or with a fixed number of digits. Two digits stand
for a byte where the named classes are ASCII, and a byte alone is a character only in ASCII. -/
def codePoint (width : Nat) : Reading Char := do
  skipBlanks
  if ← skipIf '\x7b' then
    let digits ← collectAll (· != '\x7d')
    if !(← skipIf '\x7d') then failure
    hexChar digits
  else
    let digits ← collect (fun _ => true) width
    if digits.length < width then failure
    let c ← hexChar digits
    if width = 2 && (← get).flags.ascii && 0x80 ≤ c.toNat then failure
    return c

/-- A text divided at the first place where a separator stands. -/
def divided? (separator : List Char) : List Char → Option (List Char × List Char)
  | [] => none
  | c :: cs =>
    if startsWith separator (c :: cs) then some ([], (c :: cs).drop separator.length)
    else (divided? separator cs).map fun (before, after) => (c :: before, after)

/-- The set that the text between the braces of a property stands for, and whether its complement
is meant. -/
def propertySet? (text : List Char) : Option (CharSet × Bool) :=
  match divided? ['!', '='] text with
  | some (name, value) => (Property.valued? name value).map (·, true)
  | none =>
    match (divided? [':'] text).or (divided? ['='] text) with
    | some (name, value) => (Property.valued? name value).map (·, false)
    | none => (Property.named? text).map (·, false)

/-- A property after its `p`: a name or a value in braces, or a name of one letter. -/
def property (negated : Bool) : Reading CharSet := do
  let f := (← get).flags
  skipBlanks
  let text ← if ← skipIf '\x7b' then do
      let text ← collectAll (· != '\x7d')
      if !(← skipIf '\x7d') then failure
      pure text
    else pure [← next]
  match propertySet? text with
  | some (members, differs) => do
    if f.ascii then failure
    if negated != differs then return .compl (folded f members) else return folded f members
  | none => failure

/-- An edge of words by its name. -/
def wordEdge? (name : List Char) : Option WordEdge :=
  match String.ofList name with
  | "start" => some .start
  | "end" => some .stop
  | "start-half" => some .startHalf
  | "end-half" => some .stopHalf
  | _ => none

/-- The edge of words after a `b`, which may be named in braces. Braces that do not start with a
letter or hyphen are those of a repetition. -/
def boundary : Reading WordEdge := do
  let isNamePart (c : Char) : Bool := c.isAlpha || c == '-'
  let before ← get
  if ← skipIf '\x7b' then
    skipBlanks
    match ← peek with
    | some c => do
      if !isNamePart c then
        modify fun _ => before
        return .boundary
      let name ← collectAll isNamePart
      if !(← skipIf '\x7d') then failure
      match wordEdge? name with
      | some edge => return edge
      | none => failure
    | none => failure
  else return .boundary

/-- The escape whose backslash has been read. -/
def escape : Reading Escape := do
  let f := (← get).flags
  let c ← next
  match c with
  | 'd' => return .set (namedSet f .digit)
  | 's' => return .set (namedSet f .blank)
  | 'w' => return .set (namedSet f .word)
  | 'D' => return .set (← complement f (namedSet f .digit))
  | 'S' => return .set (← complement f (namedSet f .blank))
  | 'W' => return .set (← complement f (namedSet f .word))
  | 'p' => return .set (← property false)
  | 'P' => return .set (← property true)
  | 'x' => return .literal (← codePoint 2)
  | 'u' => return .literal (← codePoint 4)
  | 'U' => return .literal (← codePoint 8)
  | 'a' => return .literal '\x07'
  | 'f' => return .literal '\x0c'
  | 't' => return .literal '\t'
  | 'n' => return .literal '\n'
  | 'r' => return .literal '\r'
  | 'v' => return .literal '\x0b'
  | 'A' => return .anchor .textStart
  | 'z' => return .anchor .textEnd
  | 'b' => return .anchor (.word f.ascii (← boundary))
  | 'B' => return .anchor (.word f.ascii .inside)
  | '<' => return .anchor (.word f.ascii .start)
  | '>' => return .anchor (.word f.ascii .stop)
  | _ => if c.toNat < 0x80 && !c.isAlphanum then return .literal c else failure

/-! ## 4. Bracketed classes -/

/-- What may stand at one end of a range, or by itself. -/
inductive ClassItem where
  | char (c : Char)
  | set (s : CharSet)

/-- One character or escape inside brackets. -/
def classItem : Reading ClassItem := do
  match ← next with
  | '\\' =>
    match ← escape with
    | .literal c => return .char c
    | .set s => return .set s
    | .anchor _ => failure
  | c => return .char c

/-- The character after the next that is no blank, as far as it is looked for: behind a number
sign the comment is not read on. -/
def peekPastBlanks : Reading (Option Char) := do
  let rest := (← get).rest.tail
  if (← get).flags.verbose then
    match rest.dropWhile isBlank with
    | '#' :: comment => return (comment.dropWhile isBlank).head?
    | cs => return cs.head?
  else return rest.head?

/-- A range of characters, if it is one. Where the named classes are ASCII, classes hold ASCII
characters only. -/
def range (a b : Char) : Reading CharSet := do
  if b.toNat < a.toNat || ((← get).flags.ascii && 0x80 ≤ b.toNat) then failure
  return .ranges [(a.toNat, b.toNat)]

/-- One item inside brackets, or a range from one character to another. A hyphen before the
closing bracket or before another hyphen starts no range. -/
def classRange : Reading CharSet := do
  skipBlanks
  let first ← classItem
  skipBlanks
  let afterHyphen ← peekPastBlanks
  if (← peek) = some '-' && afterHyphen != some ']' && afterHyphen != some '-' then
    skip
    skipBlanks
    match first, ← classItem with
    | .char a, .char b => range a b
    | _, _ => failure
  else
    match first with
    | .char c => range c c
    | .set s => return s

/-- Items of a class: the set of them all, how many there are, and how deep they nest. -/
structure Members where
  set : CharSet := .empty
  count : Nat := 0
  depth : Nat := 0

namespace Members

/-- One more item, which nests `depth` deep. -/
def add (m : Members) (s : CharSet) (depth : Nat) : Members :=
  ⟨.union m.set s, m.count + 1, max m.depth depth⟩

/-- How deep the items nest together: several of them are one level more. -/
def total (m : Members) : Nat :=
  if m.count ≤ 1 then m.depth else m.depth + 1

end Members

/-- Hyphens at the start of a class, which are literal. -/
def leadingHyphens : Nat → Members → Reading Members
  | 0, _ => failure
  | fuel + 1, items => do
    skipBlanks
    if ← skipIf '-' then leadingHyphens fuel (items.add (.single '-') 0) else return items

/-- An operation between two sets, waiting for the second; with the first comes how deep it
nests. -/
abbrev Pending := Option ((CharSet → CharSet → CharSet) × CharSet × Nat)

/-- Carry out a waiting operation. -/
def complete (f : Flags) (pending : Pending) (items : Members) : CharSet × Nat :=
  match pending with
  | none => (items.set, items.total)
  | some (op, lhs, depth) => (op (folded f lhs) (folded f items.set), max depth items.total + 1)

mutual

/-- A class whose opening bracket has been read, and how deep it nests. The first item may be a
closing bracket. -/
def bracket : Nat → Reading (CharSet × Nat)
  | 0 => failure
  | fuel + 1 => do
    let f := (← get).flags
    skipBlanks
    let negated ← skipIf '^'
    skipBlanks
    let items ← leadingHyphens fuel {}
    let items ←
      if items.count = 0 && (← peek) = some ']' then
        skip
        pure (items.add (.single ']') 0)
      else pure items
    let (members, depth) ← inside (bracketItems fuel none items)
    let members := folded f members
    return (← if negated then complement f members else pure members, depth + 1)

/-- The items of a class up to its closing bracket; `items` holds those since the last
operation. -/
def bracketItems : Nat → Pending → Members → Reading (CharSet × Nat)
  | 0, _, _ => failure
  | fuel + 1, pending, items => do
    skipBlanks
    let f := (← get).flags
    let operation (op : CharSet → CharSet → CharSet) : Reading (CharSet × Nat) := do
      skip
      skip
      bracketItems fuel (some (op, complete f pending items)) {}
    match ← peek, ← peekSecond with
    | some ']', _ => do
      skip
      return complete f pending items
    | some '[', _ =>
      match bracketedName? (← get).rest with
      | some (named, negated, rest) => do
        modify fun s => { s with rest := rest }
        let named := folded f named
        let item ← if negated then complement f named else pure named
        bracketItems fuel pending (items.add item 0)
      | none => do
        skip
        let (item, depth) ← bracket fuel
        bracketItems fuel pending (items.add item depth)
    | some '&', some '&' => operation .inter
    | some '-', some '-' => operation .diff
    | some '~', some '~' => operation .symmDiff
    | some _, _ => do
      let item ← classRange
      bracketItems fuel pending (items.add item 0)
    | none, _ => failure

end

/-! ## 5. Flags and group names -/

/-- Switch one flag on or off by its letter. -/
def Flags.switch? (f : Flags) (c : Char) (on : Bool) : Option Flags :=
  match c with
  | 'i' => some { f with ignoreCase := on }
  | 'm' => some { f with multiLine := on }
  | 's' => some { f with dotAll := on }
  | 'U' => some { f with swapGreed := on }
  | 'R' => some { f with crlf := on }
  | 'x' => some { f with verbose := on }
  | 'u' => some { f with ascii := !on }
  | _ => none

/-- The flags written by some letters. No letter comes twice, and a minus sign, of which there is
one at most, has a letter after it. -/
def switchAll (f : Flags) (on : Bool) : List Char → Option Flags
  | [] => some f
  | '-' :: cs => if on && !cs.isEmpty && !cs.contains '-' then switchAll f false cs else none
  | c :: cs => if cs.contains c then none else (f.switch? c on).bind (switchAll · on cs)

/-- Characters of a group's name. -/
def isNameChar (first : Bool) (c : Char) : Bool :=
  c == '_' || isAlphabetic c ||
    (!first && (c == '.' || c == '[' || c == ']' || isNumeric c))

/-- A group's name up to the closing angle bracket; no two groups have one name. -/
def groupName : Reading Unit := do
  let name := (← get).rest.takeWhile (· != '>')
  modify fun s => { s with rest := s.rest.drop name.length }
  if !(← skipIf '>') || name.isEmpty || !isNameChar true (name.headD '0') ||
      !name.all (isNameChar false) || (← get).names.contains name then failure
  modify fun s => { s with names := name :: s.names }

/-! ## 6. Repetitions -/

/-- A part of an expression, and how deep it nests. -/
structure Part where
  pattern : Pattern
  depth : Nat := 0

namespace Part

/-- The deepest of some parts. -/
def deepest (ps : List Part) : Nat :=
  ps.foldl (fun n p => max n p.depth) 0

/-- How deep parts nest together: several of them are one level more. -/
def total (ps : List Part) : Nat :=
  if ps.length ≤ 1 then deepest ps else deepest ps + 1

/-- One part after the other. -/
def concat (ps : List Part) : Part :=
  ⟨.concat (ps.map (·.pattern)), total ps⟩

/-- The parts as alternatives. -/
def choice (ps : List Part) : Part :=
  match ps.reverse.map (·.pattern) with
  | [] => ⟨.empty, 0⟩
  | last :: before => ⟨before.foldl (fun q p => .alt p q) last, total ps⟩

/-- A part repeated between `low` and `high` times. -/
def bounded (greedy : Bool) (p : Part) (low : Nat) (high : Option Nat) : Part :=
  ⟨p.pattern.bounded greedy low high, p.depth + 1⟩

end Part

/-- A decimal number below 2^32, with blanks around it. -/
def count : Reading Nat := do
  modify fun s => { s with rest := s.rest.dropWhile isBlank }
  let digits ← collectAll (·.isDigit)
  let n := digits.foldl (fun n d => 10 * n + (d.toNat - '0'.toNat)) 0
  if digits.isEmpty || UInt32.size ≤ n then failure
  modify fun s => { s with rest := s.rest.dropWhile isBlank }
  skipBlanks
  return n

/-- The bounds of a counted repetition whose opening brace has been read. -/
def bounds : Reading (Nat × Option Nat) := do
  skipBlanks
  let low ← count
  let high ← if ← skipIf ',' then do
      skipBlanks
      if (← peek) = some '\x7d' then pure none else some <$> count
    else pure (some low)
  if !(← skipIf '\x7d') then failure
  match high with
  | some h => if low ≤ h then return (low, high) else failure
  | none => return (low, none)

/-- The repetition signs after a part. -/
def suffixes : Nat → Part → Reading Part
  | 0, _ => failure
  | fuel + 1, p => do
    skipBlanks
    let again (low : Nat) (high : Option Nat) : Reading Part := do
      let lazy ← skipIf '?'
      suffixes fuel (p.bounded (lazy == (← get).flags.swapGreed) low high)
    match ← peek with
    | some '*' => do
      skip
      again 0 none
    | some '+' => do
      skip
      again 1 none
    | some '?' => do
      skip
      again 0 (some 1)
    | some '\x7b' => do
      skip
      let (low, high) ← bounds
      skipBlanks
      again low high
    | _ => return p

/-! ## 7. Expressions -/

/-- The pattern of any character but line ends. -/
def dot (f : Flags) : Reading Pattern :=
  if f.ascii then failure
  else if f.dotAll then pure (.set .all)
  else if f.crlf then pure (.set (.compl (.ofList ['\r', '\n'])))
  else pure (.set (.compl (.single '\n')))

mutual

/-- Alternatives. -/
def alternatives : Nat → Reading (List Part)
  | 0 => failure
  | fuel + 1 => do
    let p := Part.concat (← items fuel)
    if ← skipIf '|' then return p :: (← alternatives fuel) else return [p]

/-- What follows one another up to the end of the alternative. A repetition sign has to follow
what it repeats. -/
def items : Nat → Reading (List Part)
  | 0 => failure
  | fuel + 1 => do
    skipBlanks
    match ← peek with
    | none | some '|' | some ')' => return []
    | some '*' | some '+' | some '?' | some '\x7b' => failure
    | some _ =>
      match ← atom fuel with
      | none => return ⟨.empty, 0⟩ :: (← items fuel)
      | some p => do
        let p ← suffixes fuel p
        return p :: (← items fuel)

/-- One literal, class, anchor or group; nothing for flags that hold from here on. -/
def atom : Nat → Reading (Option Part)
  | 0 => failure
  | fuel + 1 => do
    let f := (← get).flags
    match ← next with
    | '.' => return some ⟨← dot f, 0⟩
    | '^' => return some ⟨.anchor (if f.multiLine then if f.crlf then .crlfStart else .lineStart
        else .textStart), 0⟩
    | '$' => return some ⟨.anchor (if f.multiLine then if f.crlf then .crlfEnd else .lineEnd
        else .textEnd), 0⟩
    | '[' => do
      let (members, depth) ← bracket fuel
      return some ⟨.set members, depth⟩
    | '\\' =>
      match ← escape with
      | .literal c => return some ⟨.set (literal f c), 0⟩
      | .set s => return some ⟨.set s, 0⟩
      | .anchor a => return some ⟨.anchor a, 0⟩
    | '(' => do
      skipBlanks
      if ← skipIf '?' then
        let rest := (← get).rest
        if startsWith "P<".toList rest then
          skip
          skip
          groupName
          return some (← group fuel f)
        else if rest.head? = some '<' && rest.tail.head? != some '=' &&
            rest.tail.head? != some '!' then
          skip
          groupName
          return some (← group fuel f)
        else
          let letters := rest.takeWhile fun c => c != ':' && c != ')'
          modify fun s => { s with rest := s.rest.drop letters.length }
          let inner ← switchAll f true letters
          match ← next with
          | ')' => do
            if letters.isEmpty then failure
            modify fun s => { s with flags := inner }
            return none
          | _ => do
            modify fun s => { s with flags := inner }
            return some (← group fuel f)
      else return some (← group fuel f)
    | c => return some ⟨.set (literal f c), 0⟩

/-- The rest of a group up to its closing parenthesis, after which the flags are as before. -/
def group : Nat → Flags → Reading Part
  | 0, _ => failure
  | fuel + 1, outer => do
    let p := Part.choice (← inside (alternatives fuel))
    if !(← skipIf ')') then failure
    modify fun s => { s with flags := outer }
    return ⟨p.pattern, p.depth + 1⟩

end

end Pattern.Reader

/-- The pattern a text stands for, if it is a regular expression. Each step of the reading takes
a character or goes down by one of a few levels, so the depth is bounded by the text's length. -/
def Pattern.read? (s : String) : Option Pattern := do
  let (parts, state) ← (Reader.alternatives (8 * s.length + 8)).run { rest := s.toList }
  let whole := Reader.Part.choice parts
  if state.rest.isEmpty && whole.depth ≤ Reader.depthLimit &&
      whole.pattern.weight ≤ weightLimit then some whole.pattern else none

end QueryLint
