import GatewayFleet.Text.Blank

/-! The permissive dialect of configuration layers and the strict text it stands for. Outside
quoted literals a layer may hold comments, commas in front of a closing bracket, and object keys
without quotes. Three passes take these away one after the other; none of them changes anything
inside a literal. -/

namespace GatewayFleet.Layer

/-- Where a scanner stands with regard to quoted literals. Both kinds of quotes delimit them, and
a backslash takes away the meaning of the character after it. -/
inductive Scan
  | outside
  | inside (quote : Char)
  | escaped (quote : Char)
deriving DecidableEq

def isQuote (c : Char) : Bool := c = '"' || c = '\''

def Scan.next : Scan → Char → Scan
  | .outside, c => if isQuote c then .inside c else .outside
  | .inside quote, c =>
    if c = '\\' then .escaped quote else if c = quote then .outside else .inside quote
  | .escaped quote, _ => .inside quote

inductive Mode
  | text (scan : Scan)
  | line
  | block
deriving DecidableEq

/-- Drops comments. One that runs to the end of its line leaves the line break; one between marks
that is never closed takes all that follows. -/
def stripComments : Mode → List Char → List Char
  | _, [] => []
  | .text .outside, '/' :: '/' :: rest => stripComments .line rest
  | .text .outside, '/' :: '*' :: rest => stripComments .block rest
  | .text scan, c :: rest => c :: stripComments (.text (scan.next c)) rest
  | .line, '\n' :: rest => '\n' :: stripComments (.text .outside) rest
  | .line, _ :: rest => stripComments .line rest
  | .block, '*' :: '/' :: rest => stripComments (.text .outside) rest
  | .block, _ :: rest => stripComments .block rest

def isCloser (c : Char) : Bool := c = '}' || c = ']'

def bracketNext (s : List Char) : Bool :=
  ((s.dropWhile Text.isBlank).head?.map isCloser).getD false

def commaRound : Scan → List Char → List Char
  | _, [] => []
  | scan, c :: rest =>
    if scan = .outside ∧ c = ',' ∧ bracketNext rest then commaRound scan rest
    else c :: commaRound (scan.next c) rest

theorem commaRound_sublist (scan : Scan) (s : List Char) : (commaRound scan s).Sublist s := by
  induction s generalizing scan with
  | nil => exact .slnil
  | cons c rest ih =>
    rw [commaRound]
    split
    · exact (ih scan).cons c
    · exact (ih (scan.next c)).cons_cons c

theorem commaRound_length_lt {s : List Char} (h : commaRound .outside s ≠ s) :
    (commaRound .outside s).length < s.length := by
  have hsub := commaRound_sublist .outside s
  exact Nat.lt_of_le_of_ne hsub.length_le fun hlength => h (hsub.eq_of_length hlength)

/-- Goes round until nothing changes. A comma that is dropped may leave another one in front of the
bracket. -/
def settleCommas (s : List Char) : List Char :=
  if commaRound .outside s = s then s else settleCommas (commaRound .outside s)
termination_by s.length
decreasing_by exact commaRound_length_lt ‹_›

def isKeyStart (c : Char) : Bool := c = '_' || c = '$' || c.isAlpha

def isKeyChar (c : Char) : Bool := isKeyStart c || c.isDigit || c = '-'

def isKeyAhead (s : List Char) : Bool :=
  ((s.dropWhile isKeyChar).dropWhile Text.isBlank).head? = some ':'

inductive Spot
  | plain (scan : Scan)
  | keyMayStart
  | inKey
deriving DecidableEq

def opensKey (c : Char) : Bool := c = '{' || c = ','

def Spot.after (scan : Scan) (c : Char) : Spot :=
  if scan = .outside ∧ opensKey c then .keyMayStart else .plain (scan.next c)

def quoteKeys : Spot → List Char → List Char
  | .inKey, [] => ['"']
  | _, [] => []
  | .plain scan, c :: rest => c :: quoteKeys (Spot.after scan c) rest
  | .keyMayStart, c :: rest =>
    if Text.isBlank c then c :: quoteKeys .keyMayStart rest
    else if isKeyStart c && isKeyAhead rest then '"' :: c :: quoteKeys .inKey rest
    else c :: quoteKeys (Spot.after .outside c) rest
  | .inKey, c :: rest =>
    if isKeyChar c then c :: quoteKeys .inKey rest
    else '"' :: c :: quoteKeys (.plain .outside) rest

def strictChars (s : List Char) : List Char :=
  let uncommented := stripComments (.text .outside) s
  quoteKeys (.plain .outside) (settleCommas (commaRound .outside uncommented))

def toStrict (text : String) : String := String.ofList (strictChars text.toList)

end GatewayFleet.Layer
