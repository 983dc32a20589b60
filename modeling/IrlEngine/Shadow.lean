import IrlEngine.Admin

/-!
# The shadow mode flag

`shadow_mode.rs`: a flag in the process, backed by a row of `irl.system_config`.  `set` writes
the row and then the flag, `refresh` reads the row and then writes the flag, and nothing keeps
two of them apart.

* `shadowStep` — the statements and stores one by one;
* `run_set_alone` — a `set` with nothing in between is what `shadow_mode_set` makes of it;
* `Steady` — the invariant after a switch that lasts;
* `switch_kept_iff` — a switch lasts exactly if, when it is stored, the row still has its value
  and no refresh under way has read another.
-/

namespace IrlEngine

/-! ## The cache -/

/-- How far a call of `set` has come. -/
inductive SetPhase where
  | pending
  /-- The row is written, the flag not yet. -/
  | written
  | returned
  | failed
  deriving DecidableEq, Repr

/-- A call on the cache, and how far it has come. -/
inductive ShadowJob where
  | set (value : Bool) (updatedBy : String) (phase : SetPhase)
  /-- A refresh that has read the row and not yet stored; `value` is what it stores, if anything. -/
  | refresh (value : Option Bool)
  /-- A refresh that has returned. -/
  | refreshed
  deriving DecidableEq, Repr

/-- The row, the flag, and every call so far. -/
structure ShadowState where
  row : Option ShadowRow
  flag : Bool
  jobs : List ShadowJob

/-- `value_bool` of the row. -/
def ShadowState.dbValue (s : ShadowState) : Option Bool := s.row.bind ShadowRow.valueBool

/-- `ShadowModeCache::is_enabled`. -/
def ShadowState.isEnabled (s : ShadowState) : Bool := s.flag

/-- `ShadowModeCache::new`: an absent row is seeded, a `NULL` in it is left. -/
def ShadowState.new (row : Option ShadowRow) (envDefault : Bool) (now : ℤ) : ShadowState :=
  match row with
  | some r => ⟨some r, r.valueBool.getD envDefault, []⟩
  | none => ⟨some (.written envDefault now "system"), envDefault, []⟩

/-- What happens to the switch: calls that begin, and their steps. -/
inductive ShadowEvent where
  | set (value : Bool) (updatedBy : String)
  /-- The update of the row by the `k`-th call. -/
  | write (k : ℕ) (now : ℤ)
  /-- The store of the flag by the `k`-th call, which returns. -/
  | store (k : ℕ)
  | fail (k : ℕ)
  /-- The read of a refresh. -/
  | refresh

/-- A call that sets the switch begins. -/
def ShadowEvent.isSet : ShadowEvent → Bool
  | .set _ _ => true
  | _ => false

/-- One event; a step of a call that is not there, or not that far, does not happen. -/
def shadowStep (s : ShadowState) : ShadowEvent → Option ShadowState
  | .set value updatedBy => some { s with jobs := s.jobs ++ [.set value updatedBy .pending] }
  | .write k now =>
    match s.jobs[k]? with
    | some (.set value updatedBy .pending) =>
      -- the update of an absent row succeeds and writes nothing
      some { s with
        row := s.row.map fun _ => .written value now updatedBy
        jobs := s.jobs.set k (.set value updatedBy .written) }
    | _ => none
  | .store k =>
    match s.jobs[k]? with
    | some (.set value updatedBy .written) =>
      some { s with flag := value, jobs := s.jobs.set k (.set value updatedBy .returned) }
    | some (.refresh value) =>
      some { s with flag := value.getD s.flag, jobs := s.jobs.set k .refreshed }
    | _ => none
  | .fail k =>
    match s.jobs[k]? with
    | some (.set value updatedBy .pending) =>
      some { s with jobs := s.jobs.set k (.set value updatedBy .failed) }
    | _ => none
  | .refresh => some { s with jobs := s.jobs ++ [.refresh s.dbValue] }

/-- A call of `set` that has not returned. -/
def ShadowJob.isPendingSet : ShadowJob → Bool
  | .set _ _ .pending => true
  | .set _ _ .written => true
  | _ => false

/-- A `set` with nothing in between leaves the row and the flag that the handler leaves. -/
theorem run_set_alone (s : ShadowState) (a : AdminState) (hrow : a.shadowRow = s.row)
    (op : Operator) (enabled : Bool) (reason : Option String) (now : ℤ) :
    ∃ s', Run.run shadowStep s [.set enabled op.operatorId, .write s.jobs.length now,
        .store s.jobs.length] = some s' ∧
      s'.row = (shadowModeSet a op enabled reason now none).1.shadowRow ∧
      s'.flag = (shadowModeSet a op enabled reason now none).1.shadowMode := by
  have hwrite : shadowStep { s with jobs := s.jobs ++ [.set enabled op.operatorId .pending] }
      (.write s.jobs.length now) = some { s with
        row := s.row.map fun _ => .written enabled now op.operatorId
        jobs := s.jobs ++ [.set enabled op.operatorId .written] } := by
    simp [shadowStep]
  have hstore : shadowStep { s with
        row := s.row.map fun _ => .written enabled now op.operatorId
        jobs := s.jobs ++ [.set enabled op.operatorId .written] } (.store s.jobs.length)
      = some ⟨s.row.map fun _ => .written enabled now op.operatorId, enabled,
          s.jobs ++ [.set enabled op.operatorId .returned]⟩ := by
    simp [shadowStep]
  refine ⟨_, (Run.run_cons
    (t := { s with jobs := s.jobs ++ [.set enabled op.operatorId .pending] }) rfl _).trans
    ((Run.run_cons hwrite _).trans ((Run.run_cons hstore _).trans (Run.run_nil _))), ?_, ?_⟩
  · unfold shadowModeSet respond insertAuditLog
    cases op.audit <;> simp [hrow]
  · unfold shadowModeSet respond insertAuditLog
    cases op.audit <;> rfl

/-! ## Switches that last -/

/-- Whatever refreshes do after the `k`-th call, a `set`, has stored its value: as long as no other
`set` is called, flag and row have that value. -/
def SwitchKept (s : ShadowState) (k : ℕ) (value : Bool) : Prop :=
  ∀ es s', (∀ e ∈ es, e.isSet = false) → Run.run shadowStep s (.store k :: es) = some s' →
    s'.isEnabled = value ∧ s'.dbValue = some value

/-- Flag and row have the value, no refresh brings another, and no `set` is under way. -/
structure Steady (s : ShadowState) (value : Bool) : Prop where
  flag : s.flag = value
  dbValue : s.dbValue = some value
  refreshes : ∀ v, .refresh (some v) ∈ s.jobs → v = value
  sets : ∀ job ∈ s.jobs, job.isPendingSet = false

theorem Steady.not_pending {s : ShadowState} {value : Bool} (hs : Steady s value) {k : ℕ}
    {job : ShadowJob} (hk : s.jobs[k]? = some job) : job.isPendingSet ≠ true := by
  rw [hs.sets job (List.mem_of_getElem? hk)]
  exact Bool.false_ne_true

/-- **One step of the others keeps a steady state.** -/
theorem Steady.step {s s' : ShadowState} {value : Bool} (hs : Steady s value) {e : ShadowEvent}
    (he : e.isSet = false) (h : shadowStep s e = some s') : Steady s' value := by
  cases e with
  | set v updatedBy => cases he
  | write k now =>
    simp only [shadowStep] at h
    split at h
    · rename_i v updatedBy hk
      exact absurd rfl (hs.not_pending hk)
    · exact absurd h (by simp)
  | fail k =>
    simp only [shadowStep] at h
    split at h
    · rename_i v updatedBy hk
      exact absurd rfl (hs.not_pending hk)
    · exact absurd h (by simp)
  | store k =>
    simp only [shadowStep] at h
    split at h
    · rename_i v updatedBy hk
      exact absurd rfl (hs.not_pending hk)
    · rename_i v hk
      rw [← Option.some.inj h]
      refine ⟨?_, hs.dbValue, ?_, ?_⟩
      · cases v with
        | none => exact hs.flag
        | some v => exact hs.refreshes v (List.mem_of_getElem? hk)
      · intro w hw
        rcases List.mem_or_eq_of_mem_set hw with hw | hw
        · exact hs.refreshes w hw
        · cases hw
      · intro job hjob
        rcases List.mem_or_eq_of_mem_set hjob with hjob | rfl
        · exact hs.sets job hjob
        · rfl
    · exact absurd h (by simp)
  | refresh =>
    rw [← Option.some.inj h]
    refine ⟨hs.flag, hs.dbValue, ?_, ?_⟩
    · intro w hw
      rcases List.mem_append.1 hw with hw | hw
      · exact hs.refreshes w hw
      · -- the refresh has just read the row
        have hread := ShadowJob.refresh.inj (List.mem_singleton.1 hw)
        rw [hs.dbValue] at hread
        exact Option.some.inj hread
    · intro job hjob
      rcases List.mem_append.1 hjob with hjob | hjob
      · exact hs.sets job hjob
      · obtain rfl := List.mem_singleton.1 hjob
        rfl

/-- **When a switch lasts.**  Of a `set` that is about to store its value while no other `set` is
under way: flag and row keep the value if and only if the row has it now and no refresh under way
has read another. -/
theorem switch_kept_iff {s : ShadowState} {k : ℕ} {value : Bool} {updatedBy : String}
    (hk : s.jobs[k]? = some (.set value updatedBy .written))
    (halone : ∀ j job, j ≠ k → s.jobs[j]? = some job → job.isPendingSet = false) :
    SwitchKept s k value ↔
      s.dbValue = some value ∧ ∀ v, .refresh (some v) ∈ s.jobs → v = value := by
  have hlt : k < s.jobs.length := (List.getElem?_eq_some_iff.1 hk).1
  have hstore : shadowStep s (.store k) = some { s with
      flag := value, jobs := s.jobs.set k (.set value updatedBy .returned) } := by
    simp only [shadowStep, hk]
  constructor
  · intro hkept
    constructor
    · exact (hkept [] _ (by simp) ((Run.run_cons hstore []).trans (Run.run_nil _))).2
    · intro v hv
      obtain ⟨j, hj⟩ := List.mem_iff_getElem?.1 hv
      have hjk : k ≠ j := by
        rintro rfl
        rw [hk] at hj
        cases hj
      -- the refresh stores what it has read after the switch
      have happly : shadowStep { s with
          flag := value, jobs := s.jobs.set k (.set value updatedBy .returned) } (.store j)
          = some { s with
            flag := v
            jobs := (s.jobs.set k (.set value updatedBy .returned)).set j .refreshed } := by
        simp only [shadowStep, List.getElem?_set_ne hjk, hj, Option.getD_some]
      exact (hkept [.store j] _ (by simp [ShadowEvent.isSet])
        ((Run.run_cons hstore _).trans ((Run.run_cons happly []).trans (Run.run_nil _)))).1
  · rintro ⟨hrow, hreads⟩ es s' hes hrun
    have hsteady : Steady { s with
        flag := value, jobs := s.jobs.set k (.set value updatedBy .returned) } value := by
      refine ⟨rfl, hrow, ?_, ?_⟩
      · intro v hv
        rcases List.mem_or_eq_of_mem_set hv with hv | hv
        · exact hreads v hv
        · cases hv
      · intro job hjob
        obtain ⟨j, hj⟩ := List.mem_iff_getElem?.1 hjob
        rcases Table.getElem?_of_set hj with ⟨hjk, hj⟩ | ⟨-, rfl⟩
        · exact halone j job hjk hj
        · rfl
    rw [Run.run_cons hstore] at hrun
    have hend : Steady s' value := by
      refine Run.run_invariant_along (I := fun s => Steady s value) ?_ hrun
        (Run.along_of_forall (P := fun e => e.isSet = false) hes _) hsteady
      exact fun _ _ _ hs he hstep => hs.step he hstep
    exact ⟨hend.flag, hend.dbValue⟩

/-! ## A switch alone, and one with a refresh under way -/

/-- The row that migration 014 seeds. -/
def ShadowRow.seed : ShadowRow := ⟨some false, 0, "system"⟩

/-- Shadow mode is being switched on, and nothing else is under way. -/
def switchingState : ShadowState := ⟨some (.written true 5 "op"), false, [.set true "op" .written]⟩

/-- That switch lasts. -/
theorem switch_kept_alone :
    Run.run shadowStep (.new (some .seed) false 0) [.set true "op", .write 0 5]
        = some switchingState ∧
      SwitchKept switchingState 0 true := by
  refine ⟨rfl, (switch_kept_iff rfl ?_).2 ⟨rfl, ?_⟩⟩
  · intro j job hj hjob
    have hlt : j < 1 := (List.getElem?_eq_some_iff.1 hjob).1
    omega
  · intro v hv
    cases List.mem_singleton.1 hv

/-- The switch has returned, and a refresh that has read before it is still to store. -/
def overtakenState : ShadowState :=
  ⟨some (.written true 5 "op"), true, [.refresh (some false), .set true "op" .returned]⟩

/-- The refresh turns shadow mode off again; the row says it is on. -/
theorem switch_lost :
    Run.run shadowStep (.new (some .seed) false 0) [.refresh, .set true "op", .write 1 5, .store 1]
        = some overtakenState ∧
      overtakenState.jobs[1]? = some (.set true "op" .returned) ∧
      (∀ job ∈ overtakenState.jobs, job.isPendingSet = false) ∧
      overtakenState.isEnabled = true ∧
      ∃ s, Run.run shadowStep overtakenState [.store 0] = some s ∧
        s.isEnabled = false ∧ s.dbValue = some true := by
  refine ⟨rfl, rfl, ?_, rfl, _, rfl, rfl, rfl⟩
  simp [overtakenState, ShadowJob.isPendingSet]

end IrlEngine
