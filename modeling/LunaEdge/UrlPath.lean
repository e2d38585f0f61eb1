import Mathlib.Data.List.Basic
import Mathlib.Data.UInt

/-!
# Segments and escapes of URL paths

The segments of a path are what stands between its separators. A
concatenation has the segments of its parts exactly if the parts meet at a
separator (`segments_append_iff`).

`unescape` is the percent-decoding of a path, over bytes, as an escape can
stand for any of them. It lets bytes other than the escape through, so text
without escapes in front of a path stays as it is; with one, the text is
longer than what it decodes to (`length_unescape_append`).
-/

namespace LunaEdge

open List

namespace UrlPath

/-! ## Segments -/

section Segments

variable {α : Type} [DecidableEq α] {sep x y : α} {l a b : List α}

def segments (sep : α) (l : List α) : List (List α) := (l.splitOn sep).filter (· ≠ [])

@[simp] theorem segments_nil : segments sep [] = [] := rfl

theorem segments_append_sep : segments sep (a ++ sep :: b) = segments sep a ++ segments sep b := by
  rw [segments, splitOn_append_cons_self, filter_append]
  rfl

@[simp] theorem segments_sep_cons : segments sep (sep :: l) = segments sep l :=
  segments_append_sep (a := [])

theorem splitOn_cons_of_ne (hx : x ≠ sep) :
    (x :: l).splitOn sep = (l.splitOn sep).modifyHead (x :: ·) := by
  rw [splitOn_cons_eq_if_modifyHead, if_neg (by simpa using hx)]

/-- A character in front begins a segment, or goes to the one that begins
there. -/
theorem length_segments_cons (hx : x ≠ sep) :
    (segments sep (x :: l)).length
      = (segments sep l).length + if l.head?.all (· = sep) then 1 else 0 := by
  cases l with
  | nil =>
    rw [segments, splitOn_cons_of_ne hx]
    rfl
  | cons y l =>
    by_cases hy : y = sep
    · subst hy
      rw [show segments y (x :: y :: l) = segments y [x] ++ segments y l from
        segments_append_sep (a := [x]), segments_sep_cons, segments, splitOn_cons_of_ne hx]
      simp [Nat.add_comm]
    · obtain ⟨s, rest, hsplit⟩ := exists_cons_of_ne_nil (splitOn_ne_nil sep l)
      simp only [segments, splitOn_cons_of_ne hx, splitOn_cons_of_ne hy, hsplit]
      simp [hy]

theorem flatten_segments : (segments sep l).flatten = l.filter (· ≠ sep) := by
  rw [segments]
  induction l with
  | nil => rfl
  | cons x l ih =>
    by_cases hx : x = sep
    · subst hx
      rw [show (x :: l).splitOn x = [] :: l.splitOn x from splitOn_append_cons_self [] l]
      simpa using ih
    · obtain ⟨s, rest, hsplit⟩ := exists_cons_of_ne_nil (splitOn_ne_nil sep l)
      rw [splitOn_cons_of_ne hx, hsplit]
      rw [hsplit] at ih
      by_cases hs : s = []
      · simpa [hx, hs] using ih
      · simpa [hx, hs] using ih

/-- Where neither part has a separator at the joint, two segments become
one. -/
theorem length_segments_append (hx : x ≠ sep) (hy : y ≠ sep) :
    (segments sep ((a ++ [x]) ++ y :: b)).length + 1
      = (segments sep (a ++ [x])).length + (segments sep (y :: b)).length := by
  induction a with
  | nil =>
    rw [nil_append, singleton_append, length_segments_cons hx, length_segments_cons hx]
    simp [hy, Nat.add_comm]
  | cons c a ih =>
    rw [cons_append, cons_append]
    by_cases hc : c = sep
    · subst hc
      rw [segments_sep_cons, segments_sep_cons]
      exact ih
    · -- what comes after `c` begins the same way in both
      have hhead : (a ++ [x] ++ y :: b).head? = (a ++ [x]).head? :=
        List.head?_append_of_ne_nil _ (by simp)
      rw [length_segments_cons hc, length_segments_cons hc, hhead]
      omega

theorem segments_append_iff :
    segments sep (a ++ b) = segments sep a ++ segments sep b
      ↔ a.getLast? = some sep ∨ a = [] ∨ b = [] ∨ b.head? = some sep := by
  rcases eq_nil_or_concat' a with rfl | ⟨a, x, rfl⟩
  · simp
  cases b with
  | nil => simp
  | cons y b =>
    by_cases hx : x = sep
    · subst hx
      have hleft : segments x (a ++ [x]) = segments x a := by
        rw [segments_append_sep, segments_nil, append_nil]
      simp only [append_assoc, singleton_append, hleft, segments_append_sep]
      simp
    · by_cases hy : y = sep
      · subst hy
        rw [segments_append_sep, segments_sep_cons]
        simp
      · have hlen := length_segments_append (a := a) (b := b) hx hy
        refine iff_of_false (fun h => ?_) (by simp [hx, hy])
        rw [h, length_append] at hlen
        omega

end Segments

/-! ## Text as bytes -/

def utf8 (text : List Char) : List UInt8 := text.flatMap String.utf8EncodeChar

theorem utf8_append (s t : List Char) : utf8 (s ++ t) = utf8 s ++ utf8 t := flatMap_append

theorem utf8_eq_nil_iff {s : List Char} : utf8 s = [] ↔ s = [] := by
  cases s <;> simp [utf8, String.utf8EncodeChar_ne_nil]

theorem utf8EncodeChar_append_inj {c c' : Char} {l l' : List UInt8}
    (h : String.utf8EncodeChar c ++ l = String.utf8EncodeChar c' ++ l') : c = c' ∧ l = l' := by
  have hdecode := @ByteArray.utf8DecodeChar?_utf8EncodeChar_append l.toByteArray c
  rw [← toByteArray_append, h, toByteArray_append,
    ByteArray.utf8DecodeChar?_utf8EncodeChar_append] at hdecode
  obtain rfl := Option.some.inj hdecode
  exact ⟨rfl, append_cancel_left h⟩

/-- A prefix of bytes and a prefix of characters are the same thing. -/
theorem utf8_prefix_iff {s t : List Char} : utf8 s <+: utf8 t ↔ s <+: t := by
  constructor
  · intro h
    induction s generalizing t with
    | nil => exact nil_prefix
    | cons c s ih =>
      cases t with
      | nil => exact absurd (utf8_eq_nil_iff.mp (prefix_nil.mp h)) (cons_ne_nil _ _)
      | cons d t =>
        obtain ⟨rest, hrest⟩ := h
        simp only [utf8, flatMap_cons, append_assoc] at hrest
        obtain ⟨rfl, htail⟩ := utf8EncodeChar_append_inj hrest
        exact cons_prefix_cons.mpr ⟨rfl, ih ⟨rest, htail⟩⟩
  · rintro ⟨rest, rfl⟩
    exact ⟨utf8 rest, (utf8_append s rest).symm⟩

theorem utf8_inj {s t : List Char} : utf8 s = utf8 t ↔ s = t := by
  refine ⟨fun h => ?_, fun h => h ▸ rfl⟩
  obtain ⟨rest, rfl⟩ := utf8_prefix_iff.mp (h ▸ prefix_rfl : utf8 s <+: utf8 t)
  rw [utf8_append, self_eq_append_right, utf8_eq_nil_iff] at h
  rw [h, append_nil]

/-! ## Escapes -/

def slash : UInt8 := 47

def percent : UInt8 := 37

/-- `ishex` -/
def isHex (b : UInt8) : Bool := (48 ≤ b && b ≤ 57) || (97 ≤ b && b ≤ 102) || (65 ≤ b && b ≤ 70)

/-- `unhex` -/
def unhex (b : UInt8) : UInt8 :=
  if 48 ≤ b && b ≤ 57 then b - 48
  else if 97 ≤ b && b ≤ 102 then b - 97 + 10
  else if 65 ≤ b && b ≤ 70 then b - 65 + 10
  else 0

/-- `unescape` of a path. -/
def unescape : List UInt8 → Option (List UInt8)
  | [] => some []
  | b :: l =>
    if b = percent then
      match l with
      | hi :: lo :: l =>
        if isHex hi && isHex lo then (unescape l).map ((unhex hi <<< 4 ||| unhex lo) :: ·) else none
      | _ => none
    else (unescape l).map (b :: ·)

variable {b hi lo : UInt8} {l t x y w d : List UInt8}

theorem unescape_cons (hb : b ≠ percent) : unescape (b :: l) = (unescape l).map (b :: ·) := by
  rcases l with _ | ⟨hi, _ | ⟨lo, l⟩⟩ <;> simp [unescape, hb]

theorem of_unescape_percent (h : unescape (percent :: l) = some w) :
    ∃ hi lo rest v w', l = hi :: lo :: rest ∧ isHex hi = true ∧ isHex lo = true
      ∧ unescape rest = some w' ∧ w = v :: w' := by
  rcases l with _ | ⟨hi, _ | ⟨lo, rest⟩⟩
  · simp [unescape] at h
  · simp [unescape] at h
  · rw [unescape, if_pos rfl] at h
    split at h
    · rename_i hhex
      rw [Bool.and_eq_true] at hhex
      obtain ⟨w', hrest, rfl⟩ := Option.map_eq_some_iff.mp h
      exact ⟨hi, lo, rest, _, w', rfl, hhex.1, hhex.2, hrest, rfl⟩
    · cases h

theorem isHex_ne_percent (h : isHex b = true) : b ≠ percent := by
  rintro rfl
  exact absurd h (by decide)

theorem unescape_slash_cons : unescape (slash :: l) = (unescape l).map (slash :: ·) :=
  unescape_cons (by decide)

theorem unescape_append (hx : percent ∉ x) : unescape (x ++ y) = (unescape y).map (x ++ ·) := by
  induction x with
  | nil => simp
  | cons b x ih =>
    rw [mem_cons, not_or] at hx
    rw [cons_append, unescape_cons (Ne.symm hx.1), ih hx.2, Option.map_map]
    rfl

theorem eq_nil_of_unescape (h : unescape l = some []) : l = [] := by
  cases l with
  | nil => rfl
  | cons b l =>
    by_cases hb : b = percent
    · obtain ⟨hi, lo, rest, v, w, -, -, -, -, hw⟩ := of_unescape_percent (hb ▸ h)
      cases hw
    · rw [unescape_cons hb] at h
      obtain ⟨w, -, hw⟩ := Option.map_eq_some_iff.mp h
      cases hw

theorem head?_of_unescape_slash (h : unescape (slash :: l) = some w) : w.head? = some slash := by
  rw [unescape_slash_cons] at h
  obtain ⟨w, -, rfl⟩ := Option.map_eq_some_iff.mp h
  rfl

/-- Text in front that contains an escape, even an unfinished one, adds less
to what is decoded than its length. -/
theorem length_unescape_append (h : unescape (x ++ y) = some w) (hy : unescape y = some d) :
    w.length + (if percent ∈ x then 2 else 0) ≤ x.length + d.length := by
  fun_induction unescape x generalizing w with
  | case1 =>
    obtain rfl : d = w := Option.some.inj (hy.symm.trans h)
    simp
  | case2 hi lo x hhex ih =>
    obtain ⟨_, _, rest, v, w', hl, -, -, hrest, rfl⟩ := of_unescape_percent h
    obtain ⟨rfl, rfl, rfl⟩ : _ ∧ _ ∧ x ++ y = rest := by simpa using hl
    have hle := ih hrest
    simp only [length_cons]
    split <;> omega
  | case3 hi lo x hhex =>
    obtain ⟨_, _, rest, v, w', hl, hhi, hlo, -, -⟩ := of_unescape_percent h
    obtain ⟨rfl, rfl, rfl⟩ : hi = _ ∧ lo = _ ∧ x ++ y = rest := by simpa using hl
    exact absurd (by rw [hhi, hlo]; rfl) hhex
  | case4 x hshort =>
    -- the escape is finished by what comes behind, where its digits stand for themselves
    obtain ⟨hi, lo, rest, v, w', hl, hhi, hlo, hrest, rfl⟩ := of_unescape_percent h
    rcases x with _ | ⟨a, _ | ⟨b, x⟩⟩
    · obtain rfl : y = hi :: lo :: rest := hl
      rw [unescape_cons (isHex_ne_percent hhi), unescape_cons (isHex_ne_percent hlo), hrest] at hy
      obtain rfl := Option.some.inj hy
      simp only [length_cons, length_nil]
      split <;> omega
    · obtain ⟨rfl, rfl⟩ : a = hi ∧ y = lo :: rest := by simpa using hl
      rw [unescape_cons (isHex_ne_percent hlo), hrest] at hy
      obtain rfl := Option.some.inj hy
      simp only [length_cons, length_nil]
      split <;> omega
    · exact absurd rfl (hshort a b x)
  | case5 b x hb ih =>
    rw [cons_append, unescape_cons hb] at h
    obtain ⟨w, hw, rfl⟩ := Option.map_eq_some_iff.mp h
    have hle := ih hw
    simp only [length_cons, mem_cons, Ne.symm hb, false_or]
    omega

end UrlPath

end LunaEdge
