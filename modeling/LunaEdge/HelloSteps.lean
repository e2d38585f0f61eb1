import LunaEdge.ClientHello
import Mathlib.Logic.Function.Iterate

/-!
# The steps of the ClientHello parser

`parseTLSClientHelloServerName` as a machine that stands at the head of one
of its loops and takes one turn in a step. Every index and every slice is
checked, and the panic of one that is out of range is a result like the
others.

A turn advances: the position by at least four bytes in the loop over the
extensions, by at least three in the loop over the names (`advances_step`).
The machine returns what the function returns, so it does return, and never
with the panic (`run_parses`).
-/

namespace LunaEdge

namespace ClientHello

/-- The head of the loop over the extensions, with the end of their block;
the head of the loop over the names of an extension, with the body and the
size of the extension and the end of the list. -/
inductive Point where
  | start
  | extensions (stop pos : Nat)
  | names (stop body extSize listEnd i : Nat)
  | returned (result : Except HelloError (List UInt8))

/-- `frame[lo:hi]` -/
def slice (frame : List UInt8) (lo hi : Nat) : Except HelloError (List UInt8) :=
  if lo ≤ hi ∧ hi ≤ frame.length then .ok ((frame.drop lo).take (hi - lo))
  else .error .indexOutOfRange

/-- An error ends the parser. -/
def Point.ofExcept : Except HelloError Point → Point
  | .ok p => p
  | .error err => .returned (.error err)

def namesPoint (frame : List UInt8) (stop body extSize : Nat) : Except HelloError Point := do
  require (body + 2 ≤ stop) .unexpectedEOF
  let listLen ← uint16 frame body
  return .names stop body extSize (body + 2 + listLen) (body + 2)

/-- Where the loop over the extensions goes from an extension. -/
def afterHeader (frame : List UInt8) (stop body extType extSize : Nat) : Except HelloError Point :=
  if extType = 0 then namesPoint frame stop body extSize
  else .ok (.extensions stop (body + extSize))

def extensionTurn (frame : List UInt8) (stop pos : Nat) : Except HelloError Point := do
  let extType ← uint16 frame pos
  let extSize ← uint16 frame (pos + 2)
  require (pos + 4 + extSize ≤ stop) .unexpectedEOF
  afterHeader frame stop (pos + 4) extType extSize

/-- A name of type 0 is returned, another one is passed over. -/
def afterName (frame : List UInt8) (next : Nat → Point) (start nameLen : Nat) (nameType : UInt8) :
    Except HelloError Point :=
  if nameType = 0 then (slice frame start (start + nameLen)).map fun name => .returned (.ok name)
  else .ok (next (start + nameLen))

def nameTurn (frame : List UInt8) (stop body extSize listEnd i : Nat) :
    Except HelloError Point := do
  let (nameType, nameLen) ← nameHeader frame listEnd i
  afterName frame (.names stop body extSize listEnd) (i + 3) nameLen nameType

def step (frame : List UInt8) : Point → Point
  | .start => .ofExcept ((extensionsBlock frame).map fun block => .extensions block.2 block.1)
  | .extensions stop pos =>
    if pos + 4 ≤ stop then .ofExcept (extensionTurn frame stop pos)
    else .returned (.error .sniNotFound)
  | .names stop body extSize listEnd i =>
    if i + 3 ≤ listEnd ∧ i + 3 ≤ frame.length then
      .ofExcept (nameTurn frame stop body extSize listEnd i)
    else .extensions stop (body + extSize)
  | .returned result => .returned result

inductive Advances : Point → Point → Prop
  | begin {stop pos : Nat} : Advances .start (.extensions stop pos)
  | pass {stop pos pos' : Nat} (hadvance : pos + 4 ≤ pos') (hstop : pos' ≤ stop) :
      Advances (.extensions stop pos) (.extensions stop pos')
  | enter {stop pos body extSize listEnd i : Nat} (hadvance : pos + 4 ≤ body)
      (hstop : body + extSize ≤ stop) :
      Advances (.extensions stop pos) (.names stop body extSize listEnd i)
  | name {stop body extSize listEnd i i' : Nat} (hadvance : i + 3 ≤ i') (hend : i' ≤ listEnd) :
      Advances (.names stop body extSize listEnd i) (.names stop body extSize listEnd i')
  | leave {stop body extSize listEnd i : Nat} :
      Advances (.names stop body extSize listEnd i) (.extensions stop (body + extSize))
  | return {p : Point} {result : Except HelloError (List UInt8)} : Advances p (.returned result)

variable {frame : List UInt8} {stop body extSize listEnd i pos : Nat}

variable {p : Point}

theorem advances_ofExcept {x : Except HelloError Point} (h : ∀ p', x = .ok p' → Advances p p') :
    Advances p (.ofExcept x) := by
  cases x with
  | error err => exact .return
  | ok p' => exact h p' rfl

theorem fits_of_nameHeader {nameType : UInt8} {nameLen : Nat}
    (h : nameHeader frame listEnd i = .ok (nameType, nameLen)) :
    i + 3 + nameLen ≤ listEnd ∧ i + 3 + nameLen ≤ frame.length := by
  obtain ⟨_, -, h⟩ := exists_of_bind_eq_ok h
  obtain ⟨_, -, h⟩ := exists_of_bind_eq_ok h
  obtain ⟨_, hfits, h⟩ := exists_of_bind_eq_ok h
  cases h
  exact of_require hfits

theorem advances_step (frame : List UInt8) (p : Point) : Advances p (step frame p) := by
  cases p with
  | start =>
    refine advances_ofExcept fun p' h => ?_
    obtain ⟨block, -, rfl⟩ := exists_of_map_eq_ok h
    exact .begin
  | extensions stop pos =>
    rw [step]
    split
    · refine advances_ofExcept fun p' h => ?_
      obtain ⟨extType, -, h⟩ := exists_of_bind_eq_ok h
      obtain ⟨extSize, -, h⟩ := exists_of_bind_eq_ok h
      obtain ⟨_, hfits, h⟩ := exists_of_bind_eq_ok h
      have hfits := of_require hfits
      rw [afterHeader] at h
      split at h
      · obtain ⟨_, -, h⟩ := exists_of_bind_eq_ok h
        obtain ⟨listLen, -, h⟩ := exists_of_bind_eq_ok h
        cases h
        exact .enter (Nat.le_refl _) hfits
      · cases h
        exact .pass (by omega) hfits
    · exact .return
  | names stop body extSize listEnd i =>
    rw [step]
    split
    · refine advances_ofExcept fun p' h => ?_
      obtain ⟨⟨nameType, nameLen⟩, hheader, h⟩ := exists_of_bind_eq_ok h
      have hfits := fits_of_nameHeader hheader
      dsimp only at h
      rw [afterName] at h
      split at h
      · obtain ⟨name, -, rfl⟩ := exists_of_map_eq_ok h
        exact .return
      · cases h
        exact .name (by omega) hfits.1
    · exact .leave
  | returned result => exact .return

/-- `q` comes after `p` in a run. -/
def Reaches (frame : List UInt8) (p q : Point) : Prop := ∃ n, (step frame)^[n] p = q

theorem Reaches.refl (p : Point) : Reaches frame p p := ⟨0, rfl⟩

theorem Reaches.head {q : Point} (h : Reaches frame (step frame p) q) : Reaches frame p q := by
  obtain ⟨n, hn⟩ := h
  exact ⟨n + 1, hn⟩

theorem Reaches.trans {q r : Point} (h : Reaches frame p q) (h' : Reaches frame q r) :
    Reaches frame p r := by
  obtain ⟨n, rfl⟩ := h
  obtain ⟨m, rfl⟩ := h'
  exact ⟨m + n, Function.iterate_add_apply _ _ _ _⟩

def Point.afterNames (stop body extSize : Nat) :
    Except HelloError (Option (List UInt8)) → Point
  | .error err => .returned (.error err)
  | .ok (some name) => .returned (.ok name)
  | .ok none => .extensions stop (body + extSize)

theorem nameTurn_of_header {nameType : UInt8} {nameLen : Nat}
    (h : nameHeader frame listEnd i = .ok (nameType, nameLen)) :
    nameTurn frame stop body extSize listEnd i
      = .ok (if nameType = 0 then .returned (.ok ((frame.drop (i + 3)).take nameLen))
        else .names stop body extSize listEnd (i + 3 + nameLen)) := by
  have hslice : slice frame (i + 3) (i + 3 + nameLen)
      = .ok ((frame.drop (i + 3)).take nameLen) := by
    have hfits := (fits_of_nameHeader h).2
    have hin : i + 3 ≤ i + 3 + nameLen ∧ i + 3 + nameLen ≤ frame.length := by omega
    rw [slice, if_pos hin, Nat.add_sub_cancel_left]
  rw [nameTurn, h]
  show afterName frame (.names stop body extSize listEnd) (i + 3) nameLen nameType = _
  rw [afterName, hslice]
  split <;> rfl

theorem reaches_nameLoop (stop body extSize listEnd i : Nat) :
    Reaches frame (.names stop body extSize listEnd i)
      (.afterNames stop body extSize (nameLoop frame listEnd i)) := by
  refine Reaches.head ?_
  rw [step]
  fun_induction nameLoop frame listEnd i with
  | case1 i hbounds err herr =>
    rw [if_pos hbounds, nameTurn, herr]
    exact .refl _
  | case2 i hbounds nameLen hheader =>
    rw [if_pos hbounds, nameTurn_of_header hheader]
    exact .refl _
  | case3 i hbounds nameType nameLen hheader htype ih =>
    rw [if_pos hbounds, nameTurn_of_header hheader, if_neg htype]
    exact Reaches.head (by rw [Point.ofExcept, step]; exact ih)
  | case4 i hbounds =>
    rw [if_neg hbounds]
    exact .refl _

theorem reaches_serverNames (stop body extSize : Nat) :
    Reaches frame (.ofExcept (namesPoint frame stop body extSize))
      (.afterNames stop body extSize (serverNames frame stop body)) := by
  rw [namesPoint, serverNames]
  by_cases hfits : body + 2 ≤ stop
  · rw [require_of hfits]
    cases uint16 frame body with
    | error err => exact .refl _
    | ok listLen => exact reaches_nameLoop stop body extSize _ _
  · rw [require, if_neg hfits]
    exact .refl _

def Point.afterExtension (stop pos : Nat) :
    Except HelloError (Option (List UInt8) × Nat) → Point
  | .error err => .returned (.error err)
  | .ok (some name, _) => .returned (.ok name)
  | .ok (none, extSize) => .extensions stop (pos + 4 + extSize)

theorem afterExtension_pair (x : Except HelloError (Option (List UInt8))) :
    Point.afterExtension stop pos (x >>= fun name => pure (name, extSize))
      = Point.afterNames stop (pos + 4) extSize x := by
  rcases x with err | _ | name <;> rfl

theorem reaches_extension (frame : List UInt8) (hpos : pos + 4 ≤ stop) :
    Reaches frame (.extensions stop pos) (.afterExtension stop pos (extension frame stop pos)) := by
  refine Reaches.head ?_
  rw [step, if_pos hpos, extensionTurn, extension]
  cases htype : uint16 frame pos with
  | error err => exact .refl _
  | ok extType =>
  cases hsize : uint16 frame (pos + 2) with
  | error err => exact .refl _
  | ok extSize =>
  -- the same checks on both sides
  show Reaches frame
    (.ofExcept (require (pos + 4 + extSize ≤ stop) .unexpectedEOF >>= fun _ =>
      afterHeader frame stop (pos + 4) extType extSize))
    (.afterExtension stop pos (require (pos + 4 + extSize ≤ stop) .unexpectedEOF >>= fun _ =>
      extensionName frame stop (pos + 4) extType >>= fun name => pure (name, extSize)))
  by_cases hfits : pos + 4 + extSize ≤ stop
  · rw [require_of hfits]
    show Reaches frame (.ofExcept (afterHeader frame stop (pos + 4) extType extSize))
      (.afterExtension stop pos (extensionName frame stop (pos + 4) extType
        >>= fun name => pure (name, extSize)))
    rw [afterExtension_pair, afterHeader, extensionName]
    by_cases hzero : extType = 0
    · rw [if_pos hzero, if_pos hzero]
      exact reaches_serverNames stop (pos + 4) extSize
    · rw [if_neg hzero, if_neg hzero]
      exact .refl _
  · rw [require, if_neg hfits]
    exact .refl _

theorem reaches_extensionLoop (stop pos : Nat) :
    Reaches frame (.extensions stop pos) (.returned (extensionLoop frame stop pos)) := by
  fun_induction extensionLoop frame stop pos with
  | case1 pos hbounds err herr =>
    have h := reaches_extension frame hbounds
    rwa [herr] at h
  | case2 pos hbounds name size hextension =>
    have h := reaches_extension frame hbounds
    rwa [hextension] at h
  | case3 pos hbounds size hextension ih =>
    have h := reaches_extension frame hbounds
    rw [hextension] at h
    exact h.trans ih
  | case4 pos hbounds =>
    refine Reaches.head ?_
    rw [step, if_neg hbounds]
    exact .refl _

theorem reaches_parse (frame : List UInt8) :
    Reaches frame .start (.returned (parseTLSClientHelloServerName frame)) := by
  refine Reaches.head ?_
  rw [step, parseTLSClientHelloServerName]
  cases extensionsBlock frame with
  | error err => exact .refl _
  | ok block => exact reaches_extensionLoop block.2 block.1

theorem iterate_returned (result : Except HelloError (List UInt8)) (n : Nat) :
    (step frame)^[n] (.returned result) = .returned result :=
  Function.iterate_fixed rfl n

theorem result_unique {r r' : Except HelloError (List UInt8)} (h : Reaches frame p (.returned r))
    (h' : Reaches frame p (.returned r')) : r = r' := by
  obtain ⟨n, hn⟩ := h
  obtain ⟨m, hm⟩ := h'
  have hboth : (step frame)^[m + n] p = (step frame)^[n + m] p := by rw [Nat.add_comm]
  rw [Function.iterate_add_apply, Function.iterate_add_apply, hn, hm, iterate_returned,
    iterate_returned] at hboth
  exact Point.returned.inj hboth

/-- On every frame the parser returns, no index or slice is out of range on
the way, and every turn of a loop advances. -/
theorem run_parses (frame : List UInt8) :
    (∃ n, (step frame)^[n] .start = .returned (parseTLSClientHelloServerName frame))
      ∧ (∀ n, (step frame)^[n] .start ≠ .returned (.error .indexOutOfRange))
      ∧ ∀ n, Advances ((step frame)^[n] .start) ((step frame)^[n + 1] .start) := by
  refine ⟨reaches_parse frame, fun n hn => ?_, fun n => ?_⟩
  · exact parse_ne_indexOutOfRange frame (result_unique (reaches_parse frame) ⟨n, hn⟩)
  · rw [Function.iterate_succ_apply']
    exact advances_step frame _

end ClientHello

end LunaEdge
