import Mathlib.Data.List.DropRight
import Mathlib.Data.List.Infix

/-!
# The string functions of the Go standard library

`strings.ToLower`, `strings.TrimSpace` and their relatives, as far as the
normalisers of host names, DNS names and paths use them. A string is
read as its list of code points, so a prefix of bytes and a prefix of
code points are the same thing; `len` counts bytes.

`lowerRanges` is the simple lower-case mapping outside ASCII, as the
`unicode` package tabulates it. The one fact later proofs need about it
is that lowering twice is lowering once (`lowerRune_idem`): no code point
the table produces is one it changes, which `lowerRanges_closed` checks
range against range.
-/

namespace LunaEdge

open List

namespace Go

/-! ## Runes -/

/-- `unicode.IsSpace`. -/
def isSpace (c : Char) : Bool :=
  [0x09, 0x0A, 0x0B, 0x0C, 0x0D, 0x20, 0x85, 0xA0, 0x1680, 0x2028, 0x2029,
    0x202F, 0x205F, 0x3000].contains c.toNat
    || (Nat.ble 0x2000 c.toNat && Nat.ble c.toNat 0x200A)

variable {c : Char} {n : Nat} {s p : String}

theorem isSpace_eq_false (h : 0x20 < c.toNat ∧ c.toNat < 0x80) : isSpace c = false := by
  rw [← Bool.not_eq_true]
  simp only [isSpace, Bool.or_eq_true, contains_eq_mem, mem_cons,
    not_mem_nil, or_false, decide_eq_true_eq, Bool.and_eq_true, Nat.ble_eq]
  omega

/-- A run of upper-case letters: `lo`, `lo + stride`, ..., `hi` go to
`img`, `img + stride`, and so on. -/
structure CaseRange where
  lo : Nat
  hi : Nat
  stride : Nat
  img : Nat

def CaseRange.contains (r : CaseRange) (n : Nat) : Bool :=
  Nat.ble r.lo n && Nat.ble n r.hi && Nat.beq ((n - r.lo) % r.stride) 0

/-- The upper-case letters outside ASCII. -/
def lowerRanges : List CaseRange :=
  [⟨192, 214, 1, 224⟩, ⟨216, 222, 1, 248⟩, ⟨256, 302, 2, 257⟩, ⟨304, 304, 1, 105⟩,
   ⟨306, 310, 2, 307⟩, ⟨313, 327, 2, 314⟩, ⟨330, 374, 2, 331⟩, ⟨376, 376, 1, 255⟩,
   ⟨377, 381, 2, 378⟩, ⟨385, 385, 1, 595⟩, ⟨386, 388, 2, 387⟩, ⟨390, 390, 1, 596⟩,
   ⟨391, 391, 1, 392⟩, ⟨393, 394, 1, 598⟩, ⟨395, 395, 1, 396⟩, ⟨398, 398, 1, 477⟩,
   ⟨399, 399, 1, 601⟩, ⟨400, 400, 1, 603⟩, ⟨401, 401, 1, 402⟩, ⟨403, 403, 1, 608⟩,
   ⟨404, 404, 1, 611⟩, ⟨406, 406, 1, 617⟩, ⟨407, 407, 1, 616⟩, ⟨408, 408, 1, 409⟩,
   ⟨412, 412, 1, 623⟩, ⟨413, 413, 1, 626⟩, ⟨415, 415, 1, 629⟩, ⟨416, 420, 2, 417⟩,
   ⟨422, 422, 1, 640⟩, ⟨423, 423, 1, 424⟩, ⟨425, 425, 1, 643⟩, ⟨428, 428, 1, 429⟩,
   ⟨430, 430, 1, 648⟩, ⟨431, 431, 1, 432⟩, ⟨433, 434, 1, 650⟩, ⟨435, 437, 2, 436⟩,
   ⟨439, 439, 1, 658⟩, ⟨440, 440, 1, 441⟩, ⟨444, 444, 1, 445⟩, ⟨452, 452, 1, 454⟩,
   ⟨453, 453, 1, 454⟩, ⟨455, 455, 1, 457⟩, ⟨456, 456, 1, 457⟩, ⟨458, 458, 1, 460⟩,
   ⟨459, 475, 2, 460⟩, ⟨478, 494, 2, 479⟩, ⟨497, 497, 1, 499⟩, ⟨498, 500, 2, 499⟩,
   ⟨502, 502, 1, 405⟩, ⟨503, 503, 1, 447⟩, ⟨504, 542, 2, 505⟩, ⟨544, 544, 1, 414⟩,
   ⟨546, 562, 2, 547⟩, ⟨570, 570, 1, 11365⟩, ⟨571, 571, 1, 572⟩, ⟨573, 573, 1, 410⟩,
   ⟨574, 574, 1, 11366⟩, ⟨577, 577, 1, 578⟩, ⟨579, 579, 1, 384⟩, ⟨580, 580, 1, 649⟩,
   ⟨581, 581, 1, 652⟩, ⟨582, 590, 2, 583⟩, ⟨880, 882, 2, 881⟩, ⟨886, 886, 1, 887⟩,
   ⟨895, 895, 1, 1011⟩, ⟨902, 902, 1, 940⟩, ⟨904, 906, 1, 941⟩, ⟨908, 908, 1, 972⟩,
   ⟨910, 911, 1, 973⟩, ⟨913, 929, 1, 945⟩, ⟨931, 939, 1, 963⟩, ⟨975, 975, 1, 983⟩,
   ⟨984, 1006, 2, 985⟩, ⟨1012, 1012, 1, 952⟩, ⟨1015, 1015, 1, 1016⟩, ⟨1017, 1017, 1, 1010⟩,
   ⟨1018, 1018, 1, 1019⟩, ⟨1021, 1023, 1, 891⟩, ⟨1024, 1039, 1, 1104⟩,
   ⟨1040, 1071, 1, 1072⟩, ⟨1120, 1152, 2, 1121⟩, ⟨1162, 1214, 2, 1163⟩,
   ⟨1216, 1216, 1, 1231⟩, ⟨1217, 1229, 2, 1218⟩, ⟨1232, 1326, 2, 1233⟩,
   ⟨1329, 1366, 1, 1377⟩, ⟨4256, 4293, 1, 11520⟩, ⟨4295, 4295, 1, 11559⟩,
   ⟨4301, 4301, 1, 11565⟩, ⟨5024, 5103, 1, 43888⟩, ⟨5104, 5109, 1, 5112⟩,
   ⟨7312, 7354, 1, 4304⟩, ⟨7357, 7359, 1, 4349⟩, ⟨7680, 7828, 2, 7681⟩,
   ⟨7838, 7838, 1, 223⟩, ⟨7840, 7934, 2, 7841⟩, ⟨7944, 7951, 1, 7936⟩,
   ⟨7960, 7965, 1, 7952⟩, ⟨7976, 7983, 1, 7968⟩, ⟨7992, 7999, 1, 7984⟩,
   ⟨8008, 8013, 1, 8000⟩, ⟨8025, 8031, 2, 8017⟩, ⟨8040, 8047, 1, 8032⟩,
   ⟨8072, 8079, 1, 8064⟩, ⟨8088, 8095, 1, 8080⟩, ⟨8104, 8111, 1, 8096⟩,
   ⟨8120, 8121, 1, 8112⟩, ⟨8122, 8123, 1, 8048⟩, ⟨8124, 8124, 1, 8115⟩,
   ⟨8136, 8139, 1, 8050⟩, ⟨8140, 8140, 1, 8131⟩, ⟨8152, 8153, 1, 8144⟩,
   ⟨8154, 8155, 1, 8054⟩, ⟨8168, 8169, 1, 8160⟩, ⟨8170, 8171, 1, 8058⟩,
   ⟨8172, 8172, 1, 8165⟩, ⟨8184, 8185, 1, 8056⟩, ⟨8186, 8187, 1, 8060⟩,
   ⟨8188, 8188, 1, 8179⟩, ⟨8486, 8486, 1, 969⟩, ⟨8490, 8490, 1, 107⟩, ⟨8491, 8491, 1, 229⟩,
   ⟨8498, 8498, 1, 8526⟩, ⟨8544, 8559, 1, 8560⟩, ⟨8579, 8579, 1, 8580⟩,
   ⟨9398, 9423, 1, 9424⟩, ⟨11264, 11311, 1, 11312⟩, ⟨11360, 11360, 1, 11361⟩,
   ⟨11362, 11362, 1, 619⟩, ⟨11363, 11363, 1, 7549⟩, ⟨11364, 11364, 1, 637⟩,
   ⟨11367, 11371, 2, 11368⟩, ⟨11373, 11373, 1, 593⟩, ⟨11374, 11374, 1, 625⟩,
   ⟨11375, 11375, 1, 592⟩, ⟨11376, 11376, 1, 594⟩, ⟨11378, 11378, 1, 11379⟩,
   ⟨11381, 11381, 1, 11382⟩, ⟨11390, 11391, 1, 575⟩, ⟨11392, 11490, 2, 11393⟩,
   ⟨11499, 11501, 2, 11500⟩, ⟨11506, 11506, 1, 11507⟩, ⟨42560, 42604, 2, 42561⟩,
   ⟨42624, 42650, 2, 42625⟩, ⟨42786, 42798, 2, 42787⟩, ⟨42802, 42862, 2, 42803⟩,
   ⟨42873, 42875, 2, 42874⟩, ⟨42877, 42877, 1, 7545⟩, ⟨42878, 42886, 2, 42879⟩,
   ⟨42891, 42891, 1, 42892⟩, ⟨42893, 42893, 1, 613⟩, ⟨42896, 42898, 2, 42897⟩,
   ⟨42902, 42920, 2, 42903⟩, ⟨42922, 42922, 1, 614⟩, ⟨42923, 42923, 1, 604⟩,
   ⟨42924, 42924, 1, 609⟩, ⟨42925, 42925, 1, 620⟩, ⟨42926, 42926, 1, 618⟩,
   ⟨42928, 42928, 1, 670⟩, ⟨42929, 42929, 1, 647⟩, ⟨42930, 42930, 1, 669⟩,
   ⟨42931, 42931, 1, 43859⟩, ⟨42932, 42946, 2, 42933⟩, ⟨42948, 42948, 1, 42900⟩,
   ⟨42949, 42949, 1, 642⟩, ⟨42950, 42950, 1, 7566⟩, ⟨42951, 42953, 2, 42952⟩,
   ⟨42960, 42960, 1, 42961⟩, ⟨42966, 42968, 2, 42967⟩, ⟨42997, 42997, 1, 42998⟩,
   ⟨65313, 65338, 1, 65345⟩, ⟨66560, 66599, 1, 66600⟩, ⟨66736, 66771, 1, 66776⟩,
   ⟨66928, 66938, 1, 66967⟩, ⟨66940, 66954, 1, 66979⟩, ⟨66956, 66962, 1, 66995⟩,
   ⟨66964, 66965, 1, 67003⟩, ⟨68736, 68786, 1, 68800⟩, ⟨71840, 71871, 1, 71872⟩,
   ⟨93760, 93791, 1, 93792⟩, ⟨125184, 125217, 1, 125218⟩]

/-- `unicode.ToLower`, on code points. -/
def lowerCode (n : Nat) : Nat :=
  if n < 128 then if 65 ≤ n ∧ n ≤ 90 then n + 32 else n
  else
    match lowerRanges.find? (·.contains n) with
    | some r => r.img + (n - r.lo)
    | none => n

def lowerRune (c : Char) : Char := Char.ofNat (lowerCode c.toNat)

/-- Nothing `r` produces is changed by `q`: the two miss each other by
position, or by parity where `q` is a run of every second letter. -/
def CaseRange.misses (q r : CaseRange) : Bool :=
  Nat.blt (r.img + (r.hi - r.lo)) q.lo || Nat.blt q.hi r.img
    || (Nat.beq q.stride 2 && (Nat.beq r.stride 2 || Nat.beq r.lo r.hi)
      && Nat.ble q.lo r.img && Nat.beq ((r.img - q.lo) % 2) 1)

/-- What `r` produces is a code point, and an ASCII letter in lower case
or one that no range changes. -/
def CaseRange.closed (r : CaseRange) : Bool :=
  (Nat.blt (r.img + (r.hi - r.lo)) 0xD800
      || (Nat.blt 0xDFFF r.img && Nat.blt (r.img + (r.hi - r.lo)) 0x110000))
    && ((Nat.blt 90 r.img && Nat.blt (r.img + (r.hi - r.lo)) 128)
      || (Nat.ble 128 r.img && lowerRanges.all (·.misses r)))

theorem lowerRanges_closed : lowerRanges.all CaseRange.closed = true := by
  decide +kernel

theorem lowerCode_of_range {r : CaseRange} (hr : r ∈ lowerRanges) (hn : r.contains n = true) :
    lowerCode (r.img + (n - r.lo)) = r.img + (n - r.lo) ∧ (r.img + (n - r.lo)).isValidChar := by
  have hcl := all_eq_true.mp lowerRanges_closed r hr
  simp only [CaseRange.closed, Bool.and_eq_true, Bool.or_eq_true, Nat.blt_eq, Nat.ble_eq] at hcl
  simp only [CaseRange.contains, Bool.and_eq_true, Nat.ble_eq, Nat.beq_eq] at hn
  obtain ⟨hvalid, hcase⟩ := hcl
  refine ⟨?_, by simp only [Nat.isValidChar]; omega⟩
  rcases hcase with hascii | ⟨hlo, hmiss⟩
  · rw [lowerCode, if_pos (by omega), if_neg (by omega)]
  · rw [lowerCode, if_neg (by omega)]
    have hnone : lowerRanges.find? (·.contains (r.img + (n - r.lo))) = none := by
      refine List.find?_eq_none.mpr fun q hq hin => ?_
      have hm := all_eq_true.mp hmiss q hq
      simp only [CaseRange.misses, Bool.or_eq_true, Bool.and_eq_true, Nat.blt_eq,
        Nat.ble_eq, Nat.beq_eq] at hm
      simp only [CaseRange.contains, Bool.and_eq_true, Nat.ble_eq, Nat.beq_eq] at hin
      obtain ⟨hq2, hs⟩ | hm := hm.symm
      · rw [hq2.1.1] at hin
        rcases hq2.1.2 with hr2 | hr1
        · rw [hr2] at hn; omega
        · omega
      · omega
    rw [hnone]

theorem lowerCode_spec (hn : n.isValidChar) :
    lowerCode (lowerCode n) = lowerCode n ∧ (lowerCode n).isValidChar := by
  by_cases hascii : n < 128
  · have hl : lowerCode n < 128 ∧ ¬(65 ≤ lowerCode n ∧ lowerCode n ≤ 90) := by
      rw [lowerCode, if_pos hascii]; split <;> omega
    refine ⟨?_, Or.inl (by omega)⟩
    rw [lowerCode.eq_1 (lowerCode n), if_pos hl.1, if_neg hl.2]
  · cases hf : lowerRanges.find? (·.contains n) with
    | none =>
      have heq : lowerCode n = n := by rw [lowerCode, if_neg hascii, hf]
      rw [heq, heq]
      exact ⟨rfl, hn⟩
    | some r =>
      have heq : lowerCode n = r.img + (n - r.lo) := by
        rw [lowerCode, if_neg hascii, hf]
      rw [heq]
      exact lowerCode_of_range (mem_of_find?_eq_some hf)
        (by simpa using List.find?_some hf)

theorem toNat_ofNat_of_valid (h : n.isValidChar) : (Char.ofNat n).toNat = n := by
  rw [Char.ofNat, dif_pos h]
  rfl

theorem lowerRune_idem (c : Char) : lowerRune (lowerRune c) = lowerRune c := by
  obtain ⟨hidem, hvalid⟩ := lowerCode_spec c.valid
  have hcode : (lowerRune c).toNat = lowerCode c.toNat := toNat_ofNat_of_valid hvalid
  rw [lowerRune, hcode]
  exact congrArg Char.ofNat hidem

/-- `unicode.ToUpper` as far as it produces ASCII: besides the ASCII
letters only dotless i and long s do. -/
def upperCode (n : Nat) : Nat :=
  if 97 ≤ n ∧ n ≤ 122 then n - 32
  else if n = 0x131 then 73
  else if n = 0x17F then 83
  else n

def upperRune (c : Char) : Char := Char.ofNat (upperCode c.toNat)

theorem upperCode_spec (hn : n.isValidChar) :
    upperCode (upperCode n) = upperCode n ∧ (upperCode n).isValidChar := by
  simp only [upperCode, Nat.isValidChar] at hn ⊢
  split_ifs <;> omega

theorem upperRune_idem (c : Char) : upperRune (upperRune c) = upperRune c := by
  obtain ⟨hidem, hvalid⟩ := upperCode_spec c.valid
  have hcode : (upperRune c).toNat = upperCode c.toNat := toNat_ofNat_of_valid hvalid
  rw [upperRune, hcode]
  exact congrArg Char.ofNat hidem

/-! ## Strings -/

def toLower (s : String) : String := String.ofList (s.toList.map lowerRune)

/-- `strings.ToUpper`, up to letters whose upper case is not ASCII. -/
def toUpper (s : String) : String := String.ofList (s.toList.map upperRune)

def trimSpace (s : String) : String :=
  String.ofList ((s.toList.dropWhile isSpace).rdropWhile isSpace)

def hasPrefix (s p : String) : Bool := p.toList.isPrefixOf s.toList

def trimPrefix (s p : String) : String :=
  if hasPrefix s p then String.ofList (s.toList.drop p.toList.length) else s

def trimSuffix (s p : String) : String :=
  if p.toList.isSuffixOf s.toList then
    String.ofList (s.toList.take (s.toList.length - p.toList.length))
  else s

/-- The part of `s` before the first `c`, all of `s` when there is none:
`if idx := strings.Index(s, c); idx >= 0 { s = s[:idx] }`. -/
def before (s : String) (c : Char) : String :=
  String.ofList (s.toList.takeWhile fun d => decide (d ≠ c))

def contains (s sub : String) : Bool := s.toList.tails.any fun t => sub.toList.isPrefixOf t

def containsAny (s chars : String) : Bool := s.toList.any fun c => chars.toList.contains c

/-- `strings.Split` at one character. -/
def split (s : String) (sep : Char) : List String := (s.toList.splitOn sep).map String.ofList

/-- `fmt.Sprintf` of a format `%s:%s:...`. -/
def colons (fields : List String) : String :=
  String.ofList ([':'].intercalate (fields.map String.toList))

/-- `strings.Join` with one character. -/
def join (fields : List String) (sep : Char) : String :=
  String.ofList ([sep].intercalate (fields.map String.toList))

def trim (s cutset : String) : String :=
  String.ofList ((s.toList.dropWhile cutset.toList.contains).rdropWhile cutset.toList.contains)

def trimRight (s cutset : String) : String :=
  String.ofList (s.toList.rdropWhile cutset.toList.contains)

def fields (s : String) : List String :=
  ((s.toList.splitOnP isSpace).filter fun l => l ≠ []).map String.ofList

/-- `strings.SplitN` at one character, for a limit that is not negative. -/
def splitN (s : String) (sep : Char) : Nat → List String
  | 0 => []
  | 1 => [s]
  | n + 2 =>
    if sep ∈ s.toList then
      before s sep
        :: splitN (String.ofList ((s.toList.dropWhile fun d => decide (d ≠ sep)).drop 1)) sep (n + 1)
    else [s]

/-- `strconv.ErrSyntax` and `strconv.ErrRange`. -/
inductive NumError where
  | invalidSyntax
  | outOfRange
deriving Repr, DecidableEq

/-- `strconv.ParseUint` in base 10, after the digits of `n`. -/
def parseDigits (n : Nat) : List Char → Except NumError Nat
  | [] => .ok n
  | c :: cs =>
    if ¬ c.isDigit then .error .invalidSyntax
    else if UInt64.size ≤ n * 10 + (c.toNat - '0'.toNat) then .error .outOfRange
    else parseDigits (n * 10 + (c.toNat - '0'.toNat)) cs

/-- `strconv.Atoi`, where `int` has 64 bits. -/
def atoi (s : String) : Except NumError Int :=
  let negative := s.toList.head? = some '-'
  let digits := if negative ∨ s.toList.head? = some '+' then s.toList.tail else s.toList
  if digits = [] then .error .invalidSyntax
  else do
    let n ← parseDigits 0 digits
    if negative then if 1 <<< 63 < n then throw .outOfRange else return -(n : Int)
    else if 1 <<< 63 ≤ n then throw .outOfRange else return (n : Int)

/-- `strings.EqualFold`, for a second argument in ASCII. -/
def equalFold (s t : String) : Bool := toLower (toUpper s) = toLower (toUpper t)

/-- `len`, in bytes. -/
def len (s : String) : Nat := s.utf8ByteSize

theorem toUpper_idem (s : String) : toUpper (toUpper s) = toUpper s := by
  simp only [toUpper, String.toList_ofList, map_map]
  congr 1
  exact map_congr_left fun c _ => upperRune_idem c

theorem toLower_eq_self (h : ∀ c ∈ s.toList, lowerRune c = c) : toLower s = s := by
  rw [toLower, map_congr_left h, map_id', String.ofList_toList]

theorem lowerRune_of_mem_toLower (h : c ∈ (toLower s).toList) : lowerRune c = c := by
  rw [toLower, String.toList_ofList] at h
  obtain ⟨d, -, rfl⟩ := mem_map.mp h
  exact lowerRune_idem d

/-- A character below the lower-case letters is no other's lower case. -/
theorem lowerRune_eq_of_le (h : (lowerRune c).toNat ≤ 90) : lowerRune c = c := by
  have hcode : (lowerRune c).toNat = lowerCode c.toNat :=
    toNat_ofNat_of_valid (lowerCode_spec c.valid).2
  rw [hcode] at h
  have hsame : lowerCode c.toNat = c.toNat := by
    rw [lowerCode] at h ⊢
    split_ifs at h ⊢ with hascii hupper
    · omega
    · rfl
    · cases hfind : lowerRanges.find? (·.contains c.toNat) with
      | none => rfl
      | some r =>
        have hclosed := all_eq_true.mp lowerRanges_closed r (mem_of_find?_eq_some hfind)
        simp only [CaseRange.closed, Bool.and_eq_true, Bool.or_eq_true, Nat.blt_eq,
          Nat.ble_eq] at hclosed
        rw [hfind] at h
        dsimp only at h
        omega
  rw [lowerRune, hsame, Char.ofNat_toNat]

def CaseRange.apart (r : CaseRange) (lo hi : Nat) : Bool :=
  (Nat.blt r.hi lo || Nat.blt hi r.lo)
    && (Nat.blt (r.img + (r.hi - r.lo)) lo || Nat.blt hi r.img)

theorem lowerRanges_apart : lowerRanges.all (fun r => r.apart 0x09 0x20 && r.apart 0x2000 0x200A
    && [0x85, 0xA0, 0x1680, 0x2028, 0x2029, 0x202F, 0x205F, 0x3000].all fun n => r.apart n n)
      = true := by
  decide +kernel

/-- No letter is a space, in either case. -/
theorem isSpace_lowerRune (c : Char) : isSpace (lowerRune c) = isSpace c := by
  have hcode : (lowerRune c).toNat = lowerCode c.toNat :=
    toNat_ofNat_of_valid (lowerCode_spec c.valid).2
  rw [isSpace, isSpace, hcode, lowerCode]
  split_ifs with hascii hupper
  · rw [Bool.eq_iff_iff]
    simp only [Bool.or_eq_true, contains_eq_mem, mem_cons, not_mem_nil, or_false,
      decide_eq_true_eq, Bool.and_eq_true, Nat.ble_eq]
    omega
  · rfl
  · cases hfind : lowerRanges.find? (·.contains c.toNat) with
    | none => rfl
    | some r =>
      have happart := all_eq_true.mp lowerRanges_apart r (mem_of_find?_eq_some hfind)
      have hin : r.contains c.toNat = true := by simpa using List.find?_some hfind
      simp only [CaseRange.contains, Bool.and_eq_true, Nat.ble_eq] at hin
      simp only [CaseRange.apart, Bool.and_eq_true, Bool.or_eq_true, Nat.blt_eq, all_cons, all_nil,
        and_true] at happart
      rw [Bool.eq_iff_iff]
      simp only [Bool.or_eq_true, contains_eq_mem, mem_cons, not_mem_nil, or_false,
        decide_eq_true_eq, Bool.and_eq_true, Nat.ble_eq]
      omega

theorem trimSpace_toList (s : String) :
    (trimSpace s).toList = (s.toList.dropWhile isSpace).rdropWhile isSpace := by
  rw [trimSpace, String.toList_ofList]

/-- A trimmed string that is not empty starts with a rune that is no space. -/
theorem head_trimSpace {cs : List Char} (h : (trimSpace s).toList = c :: cs) :
    isSpace c = false := by
  rw [trimSpace_toList] at h
  have hpre : (c :: cs) <+: s.toList.dropWhile isSpace := h ▸ List.rdropWhile_prefix isSpace _
  obtain ⟨t, ht⟩ := hpre
  have hhd := List.head?_dropWhile_not isSpace s.toList
  rw [← ht] at hhd
  simpa using hhd

theorem mem_trimSpace (hc : c ∈ s.toList) (hspace : isSpace c = false) :
    c ∈ (trimSpace s).toList := by
  have hdrop : ∀ l : List Char, c ∈ l → c ∈ l.dropWhile isSpace := by
    intro l hl
    rw [← takeWhile_append_dropWhile (p := isSpace) (l := l)] at hl
    rcases mem_append.mp hl with hl | hl
    · rw [mem_takeWhile_imp hl] at hspace
      cases hspace
    · exact hl
  rw [trimSpace_toList, List.rdropWhile, mem_reverse]
  exact hdrop _ (mem_reverse.mpr (hdrop _ hc))

theorem trimSpace_sublist (s : String) : (trimSpace s).toList.Sublist s.toList := by
  rw [trimSpace_toList]
  exact (List.rdropWhile_prefix isSpace _).sublist.trans (dropWhile_sublist _)

theorem strip_append {p : Char → Bool} {left m right : List Char} (hne : m ≠ [])
    (hleft : ∀ c ∈ left, p c = true) (hright : ∀ c ∈ right, p c = true)
    (hfirst : ∀ c ∈ m.head?, p c = false) (hlast : ∀ c ∈ m.getLast?, p c = false) :
    ((left ++ (m ++ right)).dropWhile p).rdropWhile p = m := by
  have hdrop : ∀ l r : List Char, l ≠ [] → (∀ c ∈ l.head?, p c = false) →
      (l ++ r).dropWhile p = l ++ r := by
    intro l r hl hhead
    obtain ⟨c, cs, rfl⟩ := exists_cons_of_ne_nil hl
    rw [cons_append, dropWhile_cons_of_neg]
    simp [hhead c rfl]
  rw [dropWhile_append_of_pos hleft, hdrop m right hne hfirst, List.rdropWhile,
    reverse_append, dropWhile_append_of_pos fun c hc => hright c (mem_reverse.mp hc)]
  have hback := hdrop m.reverse [] (by simpa using hne) (by simpa using hlast)
  rw [append_nil] at hback
  rw [hback, reverse_reverse]

theorem strip_eq_self {p : Char → Bool} {l : List Char} (hfirst : ∀ c ∈ l.head?, p c = false)
    (hlast : ∀ c ∈ l.getLast?, p c = false) : (l.dropWhile p).rdropWhile p = l := by
  by_cases hne : l = []
  · rw [hne]
    rfl
  · have hstrip := strip_append hne (forall_mem_nil _) (forall_mem_nil _) hfirst hlast
    rwa [nil_append, append_nil] at hstrip

theorem ends_of_strip_eq {p : Char → Bool} {l : List Char}
    (h : (l.dropWhile p).rdropWhile p = l) :
    (∀ c ∈ l.head?, p c = false) ∧ ∀ c ∈ l.getLast?, p c = false := by
  have hback : (l.dropWhile p).rdropWhile p <+ l.dropWhile p := ( rdropWhile_prefix p _).sublist
  rw [h] at hback
  have hdrop := (dropWhile_sublist p).antisymm hback
  rw [hdrop] at h
  constructor
  · intro c hc
    have hhead := List.head?_dropWhile_not p l
    rw [hdrop, hc] at hhead
    simpa using hhead
  · intro c hc
    have hne := ne_nil_of_mem (mem_of_mem_getLast? hc)
    rw [List.getLast?_eq_some_getLast hne, Option.mem_some_iff] at hc
    exact hc ▸ Bool.eq_false_iff.mpr (rdropWhile_eq_self_iff.mp h hne)

theorem trimSpace_eq_self (hfirst : ∀ c ∈ s.toList.head?, isSpace c = false)
    (hlast : ∀ c ∈ s.toList.getLast?, isSpace c = false) : trimSpace s = s := by
  rw [trimSpace, strip_eq_self hfirst hlast, String.ofList_toList]

theorem trim_eq_self {cutset : String}
    (hfirst : ∀ c ∈ s.toList.head?, cutset.toList.contains c = false)
    (hlast : ∀ c ∈ s.toList.getLast?, cutset.toList.contains c = false) : trim s cutset = s := by
  rw [trim, strip_eq_self hfirst hlast, String.ofList_toList]

theorem trimSpace_of_no_space (h : ∀ c ∈ s.toList, isSpace c = false) : trimSpace s = s :=
  trimSpace_eq_self (fun c hc => h c (mem_of_mem_head? hc))
    fun c hc => h c (mem_of_mem_getLast? hc)

theorem trimSpace_idem (s : String) : trimSpace (trimSpace s) = trimSpace s := by
  refine trimSpace_eq_self (fun c hc => ?_) fun c hc => ?_
  · cases hs : (trimSpace s).toList with
    | nil => simp [hs] at hc
    | cons c' cs =>
      rw [hs, List.head?_cons, Option.mem_some_iff] at hc
      exact hc ▸ head_trimSpace hs
  · rw [trimSpace_toList] at hc
    have hne := ne_nil_of_mem (mem_of_mem_getLast? hc)
    rw [List.getLast?_eq_some_getLast hne, Option.mem_some_iff] at hc
    rw [← hc]
    exact Bool.eq_false_iff.mpr (rdropWhile_last_not isSpace _ hne)

theorem mem_of_hasPrefix (h : hasPrefix s p = true) (hc : c ∈ p.toList) : c ∈ s.toList :=
  (List.isPrefixOf_iff_prefix.mp h).subset hc

theorem hasPrefix_append (p s : String) : hasPrefix (p ++ s) p = true := by
  rw [hasPrefix, String.toList_append]
  exact List.isPrefixOf_iff_prefix.mpr (prefix_append _ _)

theorem trimPrefix_append (p s : String) : trimPrefix (p ++ s) p = s := by
  rw [trimPrefix, if_pos (hasPrefix_append p s), String.toList_append, drop_left,
    String.ofList_toList]

theorem append_trimPrefix (h : hasPrefix s p = true) : p ++ trimPrefix s p = s := by
  obtain ⟨t, ht⟩ := List.isPrefixOf_iff_prefix.mp h
  obtain rfl : s = p ++ String.ofList t := by
    rw [← String.toList_inj, String.toList_append, String.toList_ofList, ht]
  rw [trimPrefix_append]

theorem trimPrefix_eq_self (h : hasPrefix s p = false) : trimPrefix s p = s := by
  rw [trimPrefix, h]
  rfl

theorem before_eq_self (h : c ∉ s.toList) : before s c = s := by
  have htake : s.toList.takeWhile (fun d => decide (d ≠ c)) = s.toList :=
    takeWhile_eq_self_iff.mpr fun d hd => decide_eq_true fun hdc => h (hdc ▸ hd)
  rw [before, htake, String.ofList_toList]

theorem mem_split (sep : Char) (hc : c ∈ s.toList) :
    c = sep ∨ ∃ part ∈ split s sep, c ∈ part.toList := by
  have hmem : ∀ ls : List (List Char), c ∈ [sep].intercalate ls → c = sep ∨ ∃ l ∈ ls, c ∈ l := by
    intro ls
    induction ls with
    | nil => simp
    | cons l ls ih =>
      intro h
      cases ls with
      | nil => exact Or.inr ⟨l, by simp, by simpa using h⟩
      | cons l' ls =>
        rw [intercalate_cons_cons, mem_append, mem_append, mem_singleton] at h
        rcases h with (h | h) | h
        · exact Or.inr ⟨l, by simp, h⟩
        · exact Or.inl h
        · exact (ih h).imp_right fun ⟨m, hm, hcm⟩ => ⟨m, mem_cons_of_mem l hm, hcm⟩
  have hs : [sep].intercalate (s.toList.splitOn sep) = s.toList := intercalate_splitOn sep
  rw [← hs] at hc
  rcases hmem _ hc with h | ⟨l, hl, hcl⟩
  · exact Or.inl h
  · exact Or.inr ⟨String.ofList l, mem_map_of_mem hl, by rwa [String.toList_ofList]⟩

theorem trimSuffix_prefix (s p : String) : (trimSuffix s p).toList <+: s.toList := by
  rw [trimSuffix]
  split
  · rw [String.toList_ofList]
    exact take_prefix _ _
  · exact prefix_rfl

theorem trimSuffix_append (s p : String) : trimSuffix (s ++ p) p = s := by
  rw [trimSuffix, String.toList_append, if_pos (by simp), length_append,
    Nat.add_sub_cancel, take_left, String.ofList_toList]

theorem trimSuffix_eq_self (h : ¬ p.toList <:+ s.toList) : trimSuffix s p = s := by
  rw [trimSuffix, if_neg (by simpa using h)]

theorem toList_trimSuffix (hp : p.toList = [c]) (s : String) :
    (trimSuffix s p).toList
      = if s.toList.getLast? = some c then s.toList.dropLast else s.toList := by
  have hlast : p.toList.isSuffixOf s.toList = true ↔ s.toList.getLast? = some c := by
    rw [hp, List.isSuffixOf_iff_suffix, List.getLast?_eq_some_iff]
    exact exists_congr fun u => eq_comm
  rw [trimSuffix, hp, length_singleton, ← hp, ← dropLast_eq_take]
  simp only [hlast]
  split
  · exact String.toList_ofList
  · rfl

/-- Fields without the separator can be read off the text. -/
theorem split_join {fields : List String} {sep : Char} (h : ∀ f ∈ fields, sep ∉ f.toList)
    (hne : fields ≠ []) : split (join fields sep) sep = fields := by
  have hsplit : ([sep].intercalate (fields.map String.toList)).splitOn sep
      = fields.map String.toList := by
    refine splitOn_intercalate sep ?_ ?_
    · intro l hl
      obtain ⟨f, hf, rfl⟩ := mem_map.mp hl
      exact h f hf
    · rwa [ne_eq, map_eq_nil_iff]
  rw [split, join, String.toList_ofList, hsplit, map_map]
  conv_rhs => rw [← map_id fields]
  exact map_congr_left fun f _ => String.ofList_toList

theorem split_colons {fields : List String} (h : ∀ f ∈ fields, ':' ∉ f.toList)
    (hne : fields ≠ []) : split (colons fields) ':' = fields := split_join h hne

theorem join_split (s : String) (sep : Char) : join (split s sep) sep = s := by
  have hlists : (split s sep).map String.toList = s.toList.splitOn sep := by
    rw [split, map_map]
    conv_rhs => rw [← map_id (s.toList.splitOn sep)]
    exact map_congr_left fun l _ => String.toList_ofList
  rw [join, hlists, intercalate_splitOn, String.ofList_toList]

theorem not_mem_of_mem_split {part : String} {sep : Char} (h : part ∈ split s sep) :
    sep ∉ part.toList := by
  obtain ⟨l, hl, rfl⟩ := mem_map.mp h
  rw [String.toList_ofList]
  clear h
  generalize s.toList = cs at hl
  induction cs generalizing l with
  | nil =>
    obtain rfl : l = [] := by simpa using hl
    exact not_mem_nil
  | cons c cs ih =>
    rw [splitOn_cons_eq_if_modifyHead] at hl
    split at hl
    · rcases mem_cons.mp hl with rfl | hl
      · exact not_mem_nil
      · exact ih l hl
    · rename_i hc
      cases hparts : cs.splitOn sep with
      | nil => exact absurd hparts (splitOn_ne_nil _ _)
      | cons first rest =>
        rw [hparts, modifyHead_cons] at hl
        rcases mem_cons.mp hl with rfl | hl
        · refine not_mem_cons_of_ne_of_not_mem ?_ (ih first (by simp [hparts]))
          rintro rfl
          exact hc (by simp)
        · exact ih l (by simp [hparts, hl])

theorem toList_join_cons (f : String) {fields : List String} {sep : Char} (hne : fields ≠ []) :
    (join (f :: fields) sep).toList = f.toList ++ sep :: (join fields sep).toList := by
  rcases fields with _ | ⟨g, fields⟩
  · exact absurd rfl hne
  · simp [join, List.intercalate]

theorem toList_colons_cons (f : String) {fields : List String} (hne : fields ≠ []) :
    (colons (f :: fields)).toList = f.toList ++ ':' :: (colons fields).toList :=
  toList_join_cons f hne

theorem join_drop_suffix (fields : List String) (sep : Char) (hn : n < fields.length) :
    (join (fields.drop n) sep).toList <:+ (join fields sep).toList := by
  induction fields generalizing n with
  | nil => cases hn
  | cons f fields ih =>
    cases n with
    | zero => exact suffix_refl _
    | succ n =>
      have hn : n < fields.length := Nat.lt_of_succ_lt_succ hn
      refine (ih hn).trans ?_
      rw [toList_join_cons f (ne_nil_of_length_pos (by omega))]
      exact ⟨f.toList ++ [sep], by simp⟩

/-- A first field without a colon can be read off the text. -/
theorem colons_cons_inj {f g : String} {fields fields' : List String} (hne : fields ≠ [])
    (hne' : fields' ≠ []) (hf : ':' ∉ f.toList) (hg : ':' ∉ g.toList)
    (h : colons (f :: fields) = colons (g :: fields')) : f = g ∧ colons fields = colons fields' := by
  have hlist := congrArg String.toList h
  rw [toList_colons_cons f hne, toList_colons_cons g hne'] at hlist
  have htake : ∀ (l r : List Char), ':' ∉ l → (l ++ ':' :: r).takeWhile (· ≠ ':') = l := by
    intro l r hl
    have hpos : ∀ c ∈ l, decide (c ≠ ':') = true := fun c hc =>
      decide_eq_true fun hcolon => hl (hcolon ▸ hc)
    rw [takeWhile_append_of_pos hpos]
    simp
  have hfg : f.toList = g.toList := by
    rw [← htake f.toList (colons fields).toList hf, hlist, htake g.toList _ hg]
  rw [hfg, append_cancel_left_eq, List.cons.injEq] at hlist
  exact ⟨String.toList_inj.mp hfg, String.toList_inj.mp hlist.2⟩

/-- So can the second of two fields, if it has no colon. -/
theorem colons_pair_inj {e e' f f' : String} (hf : ':' ∉ f.toList) (hf' : ':' ∉ f'.toList)
    (h : colons [e, f] = colons [e', f']) : f = f' := by
  have hlast : ∀ a b : String, ':' ∉ b.toList →
      (colons [a, b]).toList.rtakeWhile (· ≠ ':') = b.toList := by
    intro a b hb
    rw [toList_colons_cons a (cons_ne_nil _ _), List.rtakeWhile, reverse_append,
      reverse_cons, append_assoc, takeWhile_append_of_pos]
    · simp [colons]
    · intro c hc
      refine decide_eq_true fun h => hb ?_
      simpa [colons, h] using hc
  refine String.toList_inj.mp ?_
  rw [← hlast e f hf, h, hlast e' f' hf']

theorem isDigit_of_mem_toString (hc : c ∈ (toString n).toList) : c.isDigit = true := by
  have hrepr : (toString n).toList = Nat.toDigits 10 n := Nat.toList_repr
  rw [hrepr] at hc
  exact Nat.isDigit_of_mem_toDigits (by omega) (by omega) hc

theorem noColon_toString (n : Nat) : ':' ∉ (toString n).toList := by
  intro hc
  have hdigit := isDigit_of_mem_toString hc
  simp at hdigit

theorem toString_inj {m : Nat} (h : toString n = toString m) : n = m := by
  have hdigits : Nat.toDigits 10 n = Nat.toDigits 10 m := by
    rw [← Nat.toList_repr, ← Nat.toList_repr]
    exact congrArg String.toList h
  rw [← Nat.ofDigitChars_ten_toDigits (n := n), hdigits, Nat.ofDigitChars_ten_toDigits]

end Go

end LunaEdge
