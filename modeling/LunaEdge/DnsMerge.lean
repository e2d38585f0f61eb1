import LunaEdge.DnsOperations

/-!
# Concurrent updates of the DNS engine

`RestoreRecords` and `replaceK8sRecords` both replace one part of the
engine's records and install the merge of both parts in the store. The
merge is computed under `recordsMu` and installed afterwards under the
store's own lock, so a call is two atomic steps with any number of steps
of other calls between them.

A merge is of the parts at its own section. The store therefore ends up
with the current parts when the last installation belongs to the call
whose section came last (`store_eq_of_quiet`), and with an older merge
when an overtaken call installs last.
-/

namespace LunaEdge

namespace DNS

inductive Part where
  /-- `baseDNS`, by `RestoreRecords` -/
  | base
  /-- `k8sDNS`, by `replaceK8sRecords` -/
  | k8s
deriving Repr, DecidableEq

namespace Engine

def part (e : Engine) : Part → List DNSRecord
  | .base => e.baseDNS
  | .k8s => e.k8sDNS

def setPart (e : Engine) (records : List DNSRecord) : Part → Engine
  | .base => { e with baseDNS := records }
  | .k8s => { e with k8sDNS := records }

def merged (e : Engine) : List DNSRecord := e.baseDNS ++ e.k8sDNS

def replaceK8sRecords (types : TypeNames) (e : Engine) (records : List DNSRecord) : Engine :=
  { e with
    k8sDNS := records
    store := .restore types (e.baseDNS ++ records) }

theorem part_setPart (e : Engine) (records : List DNSRecord) (p p' : Part) :
    (e.setPart records p).part p' = if p = p' then records else e.part p' := by
  cases p <;> cases p' <;> rfl

end Engine

/-! ## Calls in two steps -/

/-- The engine with the calls that have not installed their merge. Calls
are numbered in the order of their sections. -/
structure Calls where
  engine : Engine
  begun : Nat
  pending : GoMap Nat (List DNSRecord)

inductive CallStep where
  /-- The section under `recordsMu` of a new call. -/
  | merge (part : Part) (records : List DNSRecord)
  /-- `store.Restore` with the merge of a call. -/
  | install (call : Nat)

namespace Calls

def new : Calls := ⟨.new, 0, .empty⟩

def step (types : TypeNames) (s : Calls) : CallStep → Calls
  | .merge part records =>
    let engine := s.engine.setPart records part
    ⟨engine, s.begun + 1, s.pending.set s.begun engine.merged⟩
  | .install call =>
    match s.pending.get? call with
    | none => s
    | some merged =>
      { s with
        engine := { s.engine with store := .restore types merged }
        pending := s.pending.delete call }

def run (types : TypeNames) (steps : List CallStep) : Calls := steps.foldl (step types) new

def Quiet (s : Calls) : Prop := s.pending.rows = []

instance (s : Calls) : Decidable s.Quiet := inferInstanceAs (Decidable (s.pending.rows = []))

variable {types : TypeNames} {s : Calls}

theorem install_merge_base (records : List DNSRecord) :
    ((s.step types (.merge .base records)).step types (.install s.begun)).engine
      = s.engine.restoreRecords types records := by
  simp only [step, GoMap.get?_set, if_true]
  rfl

theorem install_merge_k8s (records : List DNSRecord) :
    ((s.step types (.merge .k8s records)).step types (.install s.begun)).engine
      = s.engine.replaceK8sRecords types records := by
  simp only [step, GoMap.get?_set, if_true]
  rfl

/-! ## The parts that were written last -/

/-- The records that the last section of a part's calls wrote. -/
def lastWritten (part : Part) : List CallStep → List DNSRecord → List DNSRecord
  | [], written => written
  | .merge part' records :: steps, written =>
    lastWritten part steps (if part' = part then records else written)
  | .install _ :: steps, written => lastWritten part steps written

theorem part_step_install (call : Nat) (p : Part) :
    (s.step types (.install call)).engine.part p = s.engine.part p := by
  simp only [step]
  split
  · rfl
  · cases p <;> rfl

theorem part_foldl_step (p : Part) (steps : List CallStep) :
    (steps.foldl (step types) s).engine.part p = lastWritten p steps (s.engine.part p) := by
  induction steps generalizing s with
  | nil => rfl
  | cons e steps ih =>
    rw [List.foldl_cons, ih]
    cases e with
    | merge part records => rw [lastWritten, step, Engine.part_setPart]
    | install call => rw [lastWritten, part_step_install]

theorem merged_run (steps : List CallStep) :
    (run types steps).engine.merged = lastWritten .base steps [] ++ lastWritten .k8s steps [] := by
  have hbase : (run types steps).engine.part .base = lastWritten .base steps [] :=
    part_foldl_step .base steps
  have hk8s : (run types steps).engine.part .k8s = lastWritten .k8s steps [] :=
    part_foldl_step .k8s steps
  exact congrArg₂ (· ++ ·) hbase hk8s

/-! ## The newest merge is installed last -/

/-- An installation that leaves no call unfinished is that of the call
whose section came last. -/
def InstallsNewest (s : Calls) : CallStep → Prop
  | .merge _ _ => True
  | .install call =>
    s.pending.get? call = none ∨ (s.pending.delete call).rows ≠ [] ∨ call + 1 = s.begun

instance (s : Calls) : ∀ e, Decidable (s.InstallsNewest e)
  | .merge _ _ => isTrue trivial
  | .install call => inferInstanceAs (Decidable
      (s.pending.get? call = none ∨ (s.pending.delete call).rows ≠ [] ∨ call + 1 = s.begun))

/-- The newest call, while it is unfinished, has the current merge; when
no call is unfinished the store has it. -/
structure Current (types : TypeNames) (s : Calls) : Prop where
  newest : ∀ call merged, s.pending.get? call = some merged → call + 1 = s.begun →
    merged = s.engine.merged
  begun : ∀ call merged, s.pending.get? call = some merged → call < s.begun
  quiet : s.Quiet → s.engine.store = .restore types s.engine.merged

theorem Current.new : Current types new where
  newest _ _ hget := absurd hget (by simp [Calls.new])
  begun _ _ hget := absurd hget (by simp [Calls.new])
  quiet _ := rfl

theorem Current.merge (h : Current types s) (part : Part) (records : List DNSRecord) :
    Current types (s.step types (.merge part records)) where
  newest call merged hget hnew := by
    obtain rfl : call = s.begun := Nat.succ.inj hnew
    simp only [step, GoMap.get?_set, if_true] at hget
    exact (Option.some.inj hget).symm
  begun call merged hget := by
    simp only [step, GoMap.get?_set] at hget ⊢
    split at hget
    · omega
    · have := h.begun call merged hget
      omega
  quiet hquiet := by
    have hnone := GoMap.get?_eq_none_of_rows hquiet s.begun
    simp only [step, GoMap.get?_set, if_true] at hnone
    cases hnone

theorem Current.install (h : Current types s) {call : Nat}
    (hnewest : s.InstallsNewest (.install call)) :
    Current types (s.step types (.install call)) := by
  simp only [step]
  split
  · exact h
  · rename_i merged hget
    refine ⟨fun call' merged' hget' hnew => ?_, fun call' merged' hget' => ?_, fun hquiet => ?_⟩
    · rw [GoMap.get?_delete] at hget'
      split at hget'
      · cases hget'
      · exact h.newest call' merged' hget' hnew
    · rw [GoMap.get?_delete] at hget'
      split at hget'
      · cases hget'
      · exact h.begun call' merged' hget'
    · rcases hnewest with hnone | hmore | hlast
      · rw [hget] at hnone
        cases hnone
      · exact absurd hquiet hmore
      · rw [h.newest call merged hget hlast]
        rfl

theorem Current.step (h : Current types s) (e : CallStep) (he : s.InstallsNewest e) :
    Current types (s.step types e) := by
  cases e with
  | merge part records => exact h.merge part records
  | install call => exact h.install he

/-- When all calls have completed the store holds the records written
last to both parts. -/
theorem store_eq_of_quiet (types : TypeNames) (steps : List CallStep)
    (h : Runs.Along (step types) InstallsNewest new steps) (hquiet : (run types steps).Quiet) :
    (run types steps).engine.store
      = .restore types (lastWritten .base steps [] ++ lastWritten .k8s steps []) := by
  have hcurrent : Current types (run types steps) :=
    h.invariant (fun _ e hs he => hs.step e he) .new
  rw [hcurrent.quiet hquiet, merged_run]

/-- `RestoreRecords` with one record and `replaceK8sRecords` with another:
the two sections first, then an installation of each. -/
def overtaken (first second : Nat) : List CallStep :=
  [.merge .base [{ id := "api", fqdn := "api.example.com", recordType := "A", enabled := true }],
    .merge .k8s [{ id := "k8s", fqdn := "web.example.com", recordType := "A", enabled := true }],
    .install first, .install second]

theorem store_eq_of_quiet_in_order :
    (run commonTypes (overtaken 0 1)).engine.store
      = .restore commonTypes
        (lastWritten .base (overtaken 0 1) [] ++ lastWritten .k8s (overtaken 0 1) []) :=
  store_eq_of_quiet commonTypes (overtaken 0 1) (by decide +kernel) (by decide +kernel)

/-- The first call installs last: the record of Kubernetes is lost. -/
theorem overtaken_store_ne :
    (run commonTypes (overtaken 1 0)).Quiet
      ∧ lastWritten .k8s (overtaken 1 0) []
        = [{ id := "k8s", fqdn := "web.example.com", recordType := "A", enabled := true }]
      ∧ ((run commonTypes (overtaken 1 0)).engine.store.lookup commonTypes
          ⟨"web.example.com", "A"⟩).2 = false
      ∧ (run commonTypes (overtaken 1 0)).engine.store
        ≠ .restore commonTypes
          (lastWritten .base (overtaken 1 0) [] ++ lastWritten .k8s (overtaken 1 0) []) := by
  refine ⟨by decide +kernel, by decide +kernel, by decide +kernel, fun heq => ?_⟩
  have hlookup := congrArg
    (fun store => (store.lookup commonTypes ⟨"web.example.com", "A"⟩).2) heq
  revert hlookup
  decide +kernel

end Calls

end DNS

end LunaEdge
