import Mathlib.Data.List.Forall2
import LunaEdge.GoText

/-!
# JSON texts of string arrays

The texts that encode a list of strings, as a relation: every character of
a value is written as it is or as one of its escapes, and white space is
free around the brackets and between the elements (`EncodesStrings`).
`marshal` is the text `json.Marshal` chooses, and it is one of them.

Readers that do not parse JSON look at the ends of a text and at its
commas. What they find there is read off an encoded character once, as a
character that stands for itself or as an `Escape`, and then off a whole
body.
-/

namespace LunaEdge

open List

namespace Json

/-! ## Characters -/

def White (cs : List Char) : Prop := ∀ c ∈ cs, c ∈ [' ', '\t', '\n', '\r']

theorem white_nil : White [] := fun _ h => absurd h not_mem_nil

def hexDigits : List (Char × Nat) := "0123456789abcdef".toList.zipIdx ++ "ABCDEF".toList.zipIdx 10

def HexUnit (n : Nat) (text : List Char) : Prop :=
  ∃ a ∈ hexDigits, ∃ b ∈ hexDigits, ∃ c ∈ hexDigits, ∃ d ∈ hexDigits,
    text = ['\\', 'u', a.1, b.1, c.1, d.1] ∧ n = ((a.2 * 16 + b.2) * 16 + c.2) * 16 + d.2

/-- The characters with an escape of their own, and its letter. -/
def shortEscapes : List (Char × Char) :=
  [('"', '"'), ('\\', '\\'), ('/', '/'), ('\x08', 'b'), ('\x0c', 'f'), ('\n', 'n'), ('\r', 'r'),
    ('\t', 't')]

inductive EncodesChar : Char → List Char → Prop
  | raw {c : Char} (hcontrol : 0x20 ≤ c.toNat) (hquote : c ≠ '"') (hback : c ≠ '\\') :
      EncodesChar c [c]
  | short {c letter : Char} (h : (c, letter) ∈ shortEscapes) : EncodesChar c ['\\', letter]
  | unit {c : Char} {text : List Char} (h : HexUnit c.toNat text) : EncodesChar c text
  /-- a surrogate pair -/
  | pair {c : Char} {high low : List Char} {n m : Nat} (hhigh : HexUnit (0xD800 + n) high)
      (hlow : HexUnit (0xDC00 + m) low) (hn : n < 0x400) (hm : m < 0x400)
      (h : c.toNat = 0x10000 + n * 0x400 + m) : EncodesChar c (high ++ low)

inductive EncodesChars : List Char → List Char → Prop
  | nil : EncodesChars [] []
  | cons {c : Char} {cs text body : List Char} (h : EncodesChar c text)
      (hbody : EncodesChars cs body) : EncodesChars (c :: cs) (text ++ body)

/-- One string of an array, with the white space around it. -/
def EncodesElement (v : String) (text : List Char) : Prop :=
  ∃ before body after, White before ∧ White after ∧ EncodesChars v.toList body
    ∧ text = before ++ '"' :: (body ++ '"' :: after)

def EncodesElements (vs : List String) (inner : List Char) : Prop :=
  (vs = [] ∧ White inner)
    ∨ (vs ≠ [] ∧ ∃ elements, List.Forall₂ EncodesElement vs elements
        ∧ inner = [','].intercalate elements)

/-- `t` is a JSON array of the strings `vs`. -/
def EncodesStrings (vs : List String) (t : String) : Prop :=
  ∃ before inner after, White before ∧ White after ∧ EncodesElements vs inner
    ∧ t.toList = before ++ '[' :: (inner ++ ']' :: after)

/-! ## The text of `json.Marshal` -/

def hexDigit (n : Nat) : Char := "0123456789abcdef".toList.getD n '0'

/-- The escapes of `encoding/json`, those for HTML among them. -/
def escape (c : Char) : List Char :=
  if c = '"' ∨ c = '\\' then ['\\', c]
  else if c = '\x08' then ['\\', 'b']
  else if c = '\x0c' then ['\\', 'f']
  else if c = '\n' then ['\\', 'n']
  else if c = '\r' then ['\\', 'r']
  else if c = '\t' then ['\\', 't']
  else if c.toNat < 0x20 ∨ c ∈ ['<', '>', '&', '\u2028', '\u2029'] then
    ['\\', 'u', hexDigit (c.toNat / 4096), hexDigit (c.toNat / 256 % 16),
      hexDigit (c.toNat / 16 % 16), hexDigit (c.toNat % 16)]
  else [c]

def quote (v : String) : List Char := '"' :: (v.toList.flatMap escape ++ ['"'])

/-- `json.Marshal` of a `[]string`. -/
def marshal (vs : List String) : String :=
  String.ofList ('[' :: ([','].intercalate (vs.map quote) ++ [']']))

theorem hexDigit_mem {n : Nat} (hn : n < 16) : (hexDigit n, n) ∈ hexDigits := by
  have hall : ∀ m < 16, (hexDigit m, m) ∈ hexDigits := by decide
  exact hall n hn

theorem encodesChar_escape (c : Char) : EncodesChar c (escape c) := by
  rw [escape]
  split
  · rename_i h
    rcases h with rfl | rfl <;> exact .short (by decide)
  repeat
    split
    · rename_i h
      subst h
      exact .short (by decide)
  rename_i hquote _ _ _ _ _
  split
  · rename_i h
    have hsmall : c.toNat < 65536 := by
      rcases h with h | h
      · omega
      · have hall : ['<', '>', '&', '\u2028', '\u2029'].all (·.toNat < 65536) = true := by decide
        exact of_decide_eq_true (all_eq_true.mp hall c h)
    refine .unit ⟨_, hexDigit_mem (n := c.toNat / 4096) (by omega), _,
      hexDigit_mem (n := c.toNat / 256 % 16) (by omega), _,
      hexDigit_mem (n := c.toNat / 16 % 16) (by omega), _,
      hexDigit_mem (n := c.toNat % 16) (by omega), rfl, ?_⟩
    simp only
    omega
  · rename_i h
    exact .raw (by omega) (fun hc => hquote (Or.inl hc)) fun hc => hquote (Or.inr hc)

theorem encodesChars_flatMap (cs : List Char) : EncodesChars cs (cs.flatMap escape) := by
  induction cs with
  | nil => exact .nil
  | cons c cs ih => exact .cons (encodesChar_escape c) ih

theorem encodesElement_quote (v : String) : EncodesElement v (quote v) :=
  ⟨[], _, [], white_nil, white_nil, encodesChars_flatMap v.toList, rfl⟩

theorem forall₂_quote (vs : List String) : List.Forall₂ EncodesElement vs (vs.map quote) := by
  rw [forall₂_map_right_iff]
  exact forall₂_same.mpr fun v _ => encodesElement_quote v

theorem encodesStrings_marshal (vs : List String) : EncodesStrings vs (marshal vs) := by
  refine ⟨[], [','].intercalate (vs.map quote), [], white_nil, white_nil, ?_, ?_⟩
  · by_cases hvs : vs = []
    · subst hvs
      exact Or.inl ⟨rfl, white_nil⟩
    · exact Or.inr ⟨hvs, vs.map quote, forall₂_quote vs, rfl⟩
  · rw [marshal, String.toList_ofList]
    rfl

/-! ## What a reader finds -/

/-- A text that stands for a character without being it. -/
structure Escape (c : Char) (text : List Char) : Prop where
  first : text.head? = some '\\'
  two : 2 ≤ text.length
  plain : ∀ d ∈ text, d ≠ ',' ∧ Go.isSpace d = false
  quote : text.getLast? = some '"' → c = '"' ∧ text = ['\\', '"']

theorem hexDigits_plain : ∀ d ∈ hexDigits,
    d.1 ≠ ',' ∧ d.1 ≠ '"' ∧ Go.isSpace d.1 = false := by
  decide

variable {text : List Char}

theorem HexUnit.plain {n : Nat} (h : HexUnit n text) :
    text.head? = some '\\' ∧ text.length = 6 ∧ text.getLast? ≠ some '"'
      ∧ ∀ d ∈ text, d ≠ ',' ∧ Go.isSpace d = false := by
  obtain ⟨a, ha, b, hb, c, hc, d, hd, rfl, -⟩ := h
  refine ⟨rfl, rfl, ?_, ?_⟩
  · simpa using (hexDigits_plain d hd).2.1
  · have hdigit := fun x hx => hexDigits_plain x hx
    have hslash : '\\' ≠ ',' ∧ Go.isSpace '\\' = false := by decide
    have hu : 'u' ≠ ',' ∧ Go.isSpace 'u' = false := by decide
    intro x hx
    simp only [mem_cons, not_mem_nil, or_false] at hx
    rcases hx with rfl | rfl | rfl | rfl | rfl | rfl
    · exact hslash
    · exact hu
    · exact ⟨(hdigit a ha).1, (hdigit a ha).2.2⟩
    · exact ⟨(hdigit b hb).1, (hdigit b hb).2.2⟩
    · exact ⟨(hdigit c hc).1, (hdigit c hc).2.2⟩
    · exact ⟨(hdigit d hd).1, (hdigit d hd).2.2⟩

theorem HexUnit.escape {n : Nat} (h : HexUnit n text) (c : Char) : Escape c text := by
  obtain ⟨hfirst, hlength, hlast, hplain⟩ := h.plain
  exact ⟨hfirst, by omega, hplain, fun hquote => absurd hquote hlast⟩

theorem Escape.append {c d : Char} {text' : List Char} (h : Escape c text) (h' : Escape d text')
    (hlast : text'.getLast? ≠ some '"') : Escape c (text ++ text') where
  first := by rw [List.head?_append, h.first]; rfl
  two := by
    have := h.two
    rw [length_append]
    omega
  plain x hx := (mem_append.mp hx).elim (h.plain x) (h'.plain x)
  quote hquote := by
    rw [List.getLast?_append] at hquote
    cases hl : text'.getLast? with
    | none =>
      have htwo := h'.two
      rw [List.getLast?_eq_none_iff.mp hl] at htwo
      cases htwo
    | some x =>
      rw [hl, Option.some_or] at hquote
      exact absurd (hl.trans hquote) hlast

theorem escape_short {c letter : Char} (h : (c, letter) ∈ shortEscapes) :
    Escape c ['\\', letter] := by
  have hplain : ∀ e ∈ shortEscapes, e.2 ≠ ',' ∧ Go.isSpace e.2 = false := by decide
  have hquote : ∀ e ∈ shortEscapes, e.2 = '"' → e.1 = '"' := by decide
  refine ⟨rfl, le_rfl, ?_, ?_⟩
  · intro d hd
    simp only [mem_cons, not_mem_nil, or_false] at hd
    rcases hd with rfl | rfl
    · decide
    · exact hplain _ h
  · intro hlast
    obtain rfl : letter = '"' := by simpa using hlast
    exact ⟨hquote _ h rfl, rfl⟩

theorem EncodesChar.raw_or_escape {c : Char} (h : EncodesChar c text) :
    (text = [c] ∧ c ≠ '"') ∨ Escape c text := by
  cases h with
  | raw hcontrol hquote hback => exact Or.inl ⟨rfl, hquote⟩
  | short h => exact Or.inr (escape_short h)
  | unit h => exact Or.inr (h.escape c)
  | pair hhigh hlow =>
    exact Or.inr ((hhigh.escape c).append (hlow.escape c) hlow.plain.2.2.1)

namespace EncodesChars

variable {cs body : List Char}

section

variable (h : EncodesChars cs body)

include h

theorem length_le : cs.length ≤ body.length := by
  induction h with
  | nil => exact le_rfl
  | cons h _ ih =>
    rw [length_append, length_cons]
    rcases h.raw_or_escape with ⟨rfl, -⟩ | hescape
    · rw [length_singleton]
      omega
    · have := hescape.two
      omega

/-- A body as long as its value has no escape. -/
theorem eq_of_length (hlength : body.length = cs.length) : body = cs := by
  induction h with
  | nil => rfl
  | cons h hbody ih =>
    rw [length_append, length_cons] at hlength
    have hle := hbody.length_le
    rcases h.raw_or_escape with ⟨rfl, -⟩ | hescape
    · rw [length_singleton] at hlength
      rw [ih (by omega)]
      rfl
    · have := hescape.two
      omega

theorem comma_not_mem (hcomma : ',' ∉ cs) : ',' ∉ body := by
  induction h with
  | nil => exact hcomma
  | cons h _ ih =>
    rw [mem_cons, not_or] at hcomma
    rw [mem_append, not_or]
    refine ⟨?_, ih hcomma.2⟩
    rcases h.raw_or_escape with ⟨rfl, -⟩ | hescape
    · simpa using hcomma.1
    · exact fun hmem => (hescape.plain _ hmem).1 rfl

theorem head {d : Char} (hd : d ∈ body.head?) : d ≠ '"' ∧ (d ∈ cs.head? ∨ d = '\\') := by
  cases h with
  | nil => cases hd
  | cons h _ =>
    rcases h.raw_or_escape with ⟨rfl, hquote⟩ | hescape
    · obtain rfl := Option.some.inj hd
      exact ⟨hquote, Or.inl rfl⟩
    · rw [List.head?_append, hescape.first] at hd
      obtain rfl := Option.some.inj hd
      exact ⟨by decide, Or.inr rfl⟩

/-- A body ends with the text of its value's last character. -/
theorem last (hne : cs ≠ []) :
    ∃ init c front text, cs = init ++ [c] ∧ EncodesChars init front ∧ EncodesChar c text
      ∧ body = front ++ text := by
  induction h with
  | nil => exact absurd rfl hne
  | @cons c cs text body h hbody ih =>
    cases cs with
    | nil =>
      cases hbody
      exact ⟨[], c, [], text, rfl, .nil, h, by simp⟩
    | cons d cs =>
      obtain ⟨init, e, front, text', hcs, hfront, htext, rfl⟩ := ih (cons_ne_nil _ _)
      exact ⟨c :: init, e, text ++ front, text', by rw [hcs]; rfl, .cons h hfront, htext,
        (append_assoc _ _ _).symm⟩

end

end EncodesChars

end Json

end LunaEdge
