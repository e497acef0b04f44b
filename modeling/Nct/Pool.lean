import Nct.LifeCycle
import Nct.Shutdown
import Mathlib.Algebra.Order.BigOperators.Group.Finset
import Mathlib.Data.Fintype.Card

/-! How many requests there are in each place. They always add up to the size of
the pool, so that enough of them are left for every `nct_req_alloc`. -/
namespace Nct

open Linked (Chain)
open Transition (Run)

def Cfg.agents (cfg : Cfg) : Finset Agent :=
  insert .main ((Finset.range cfg.tdsMax).image .recv)

/-- How many receive threads have allocated their spare request. -/
def Sys.spares (cfg : Cfg) (s : Sys) : Nat :=
  ((Finset.range cfg.tdsMax).filter fun t => (s.req0 t).isSome).card

/-- How many threads have a request in their hands. -/
def Sys.inHand (cfg : Cfg) (s : Sys) : Nat :=
  (cfg.agents.filter fun a => ((s.pc a).hand s.mnt).isSome).card

section
variable {cfg : Cfg} {s : Sys}

theorem Cfg.recv_mem_agents {t : Nat} : Agent.recv t ∈ cfg.agents ↔ t < cfg.tdsMax := by
  simp [Cfg.agents]

/-- Threads that were never created have neither a spare request nor another. -/
theorem Living.spare_lt (h : Living cfg s) {t : Nat} {r : ReqId} (hSpare : s.req0 t = some r) :
    t < cfg.tdsMax := by
  by_contra hOut
  have hNone := (h.kept.owned.booted t).mp (h.kept.within t (Nat.le_of_not_lt hOut))
  exact absurd (hNone.symm.trans hSpare) (by simp)

/-- Only main and the receive threads have requests in their hands. -/
theorem Living.held_mem (h : Living cfg s) {a : Agent} {r : ReqId}
    (hHeld : (s.pc a).holds s.mnt r) : a ∈ cfg.agents := by
  cases a with
  | main => exact Finset.mem_insert_self _ _
  | recv t =>
      rw [Cfg.recv_mem_agents]
      by_contra hOut
      rw [h.kept.within t (Nat.le_of_not_lt hOut)] at hHeld
      cases hHeld

/-- The requests in the hands of a thread. -/
def Sys.hands (cfg : Cfg) (s : Sys) : Finset ReqId :=
  cfg.agents.biUnion fun a => ((s.pc a).hand s.mnt).toFinset

theorem Living.mem_hands (h : Living cfg s) {r : ReqId} :
    r ∈ s.hands cfg ↔ ∃ a, s.lies (.held a) r := by
  simp only [Sys.hands, Finset.mem_biUnion, Option.mem_toFinset, Option.mem_def, Pc.hand_eq_some]
  exact ⟨fun ⟨a, _, ha⟩ => ⟨a, ha⟩, fun ⟨a, ha⟩ => ⟨a, h.held_mem ha, ha⟩⟩

/-- No two of them have the same one. -/
theorem Living.hands_card (h : Living cfg s) : (s.hands cfg).card = s.inHand cfg := by
  refine Places.card_filled _ _ fun a _ b _ r ha hb => ?_
  injection h.kept.owned.exclusive (.held a) (.held b) r (Pc.hand_eq_some.mp ha)
    (Pc.hand_eq_some.mp hb)

/-- The requests in the pool, those kept for spare buffers, those in the hands of
a thread, those in flight and those left behind are all there are. -/
theorem Living.conserved (h : Living cfg s) :
    ∃ free, Chain s.mnt.reqNext s.mnt.reqHead free ∧
      free.length + s.spares cfg + s.inHand cfg + s.inFlight.card + s.refused = NCT_REQ_MAX := by
  have hOwned := h.kept.owned
  obtain ⟨free, hChain⟩ := hOwned.chain
  obtain ⟨lost, hCard, hLost⟩ := h.left
  let spares := (Finset.range cfg.tdsMax).biUnion fun t => (s.req0 t).toFinset
  have hPool : ∀ r, r ∈ free.toFinset ↔ s.lies .pool r := fun r => by
    rw [List.mem_toFinset, Sys.lies_pool hChain]
  have hSpares : ∀ r, r ∈ spares ↔ ∃ t, s.lies (.spare t) r := by
    intro r
    simp only [spares, Finset.mem_biUnion, Option.mem_toFinset, Finset.mem_range, Option.mem_def]
    exact ⟨fun ⟨t, _, ht⟩ => ⟨t, ht⟩, fun ⟨t, ht⟩ => ⟨t, h.spare_lt ht, ht⟩⟩
  have hSpareCard : spares.card = s.spares cfg := by
    refine Places.card_filled _ _ fun t _ u _ r ht hu => ?_
    injection hOwned.exclusive (.spare t) (.spare u) r ht hu
  have hFreeCard : free.toFinset.card = free.length :=
    List.toFinset_card_of_nodup hChain.nodup
  have hAll : free.toFinset ∪ (spares ∪ (s.hands cfg ∪ (s.inFlight ∪ lost))) = Finset.univ := by
    refine Finset.eq_univ_of_forall fun r => ?_
    simp only [Finset.mem_union, hPool, hSpares, h.mem_hands, hLost]
    by_contra hOut
    simp only [not_or, not_exists, not_forall, not_not] at hOut
    obtain ⟨hFree, hSpare, hHand, hFlight, p, hp⟩ := hOut
    cases p with
    | pool => exact hFree hp
    | spare t => exact hSpare t hp
    | held a => exact hHand a hp
    | flight => exact hFlight hp
  have hApart : ∀ {p q : Place} {r : ReqId}, s.lies p r → s.lies q r → p ≠ q → False :=
    fun hp hq hne => hne (hOwned.exclusive _ _ _ hp hq)
  refine ⟨free, hChain, ?_⟩
  have hTotal := congrArg Finset.card hAll
  rw [Finset.card_univ, Fintype.card_fin, Finset.card_union_of_disjoint,
    Finset.card_union_of_disjoint, Finset.card_union_of_disjoint, Finset.card_union_of_disjoint,
    hFreeCard, hSpareCard, h.hands_card, hCard] at hTotal
  · omega
  all_goals
    refine Finset.disjoint_left.mpr fun r hr hr' => ?_
    simp only [Finset.mem_union, hPool, hSpares, h.mem_hands, hLost] at hr hr'
  · exact hr' ⟨.flight, hr⟩
  · obtain ⟨a, ha⟩ := hr
    rcases hr' with hr' | hr'
    · exact hApart ha (q := .flight) hr' (by simp)
    · exact hr' ⟨_, ha⟩
  · obtain ⟨t, ht⟩ := hr
    rcases hr' with ⟨a, ha⟩ | hr' | hr'
    · exact hApart ht ha (by simp)
    · exact hApart ht (q := .flight) hr' (by simp)
    · exact hr' ⟨_, ht⟩
  · rcases hr' with ⟨t, ht⟩ | ⟨a, ha⟩ | hr' | hr'
    · exact hApart hr ht (by simp)
    · exact hApart hr ha (by simp)
    · exact hApart hr (q := .flight) hr' (by simp)
    · exact hr' ⟨_, hr⟩

end

/-- No request is ever lost or made up, however the threads' steps are interleaved:
what is not in one of these places has been left behind by a start function that
refused to start. -/
theorem requests_conserved (cfg : Cfg) (s : Races)
    (run : Run (raceStep cfg) (TakenOnce (NoStaleTest cfg)) Races.boot s) :
    ∃ free, Chain s.sys.mnt.reqNext s.sys.mnt.reqHead free ∧
      free.length + s.sys.spares cfg + s.sys.inHand cfg + s.sys.inFlight.card + s.sys.refused =
        NCT_REQ_MAX :=
  (run_living run).1.conserved

/-- Two threads have their spare requests, and the only job is in flight. -/
theorem requests_conserved_plainSteps : ∃ (s : Sys) (free : List ReqId),
    s.inFlight.card = 1 ∧ s.spares twoThreads = 2 ∧
    free.length + s.spares twoThreads + s.inHand twoThreads + s.inFlight.card + s.refused = 1024 := by
  obtain ⟨s, hRun, hFlight, hSpares⟩ : ∃ s,
      Run (step twoThreads) (NoStaleTest twoThreads) Sys.boot s ∧
      s.inFlight.card = 1 ∧ s.spares twoThreads = 2 :=
    Run.of_exec_any (mountSteps 2 getattrBody ++ (Agent.recv 0).steps 2 ++ Agent.main.steps 13)
      (by decide +kernel)
  have hRaces := races_of_run (fun _ _ hOk => hOk) hRun
  obtain ⟨free, -, hTotal⟩ := requests_conserved twoThreads ⟨s, fun _ => none⟩ hRaces
  exact ⟨s, free, hFlight, hSpares, hTotal⟩

/-- The request that main has for `nct_mount`, from its allocation until it frees it. -/
def Pc.mountReq : Pc → Option ReqId
  | .decode req => some req
  | .call .mounted req _ _ => some req
  | pc => pc.mounting

/-- The request whose job main is about to start. -/
def Pc.startReq : Pc → Option ReqId
  | .call .start req _ _ => some req
  | _ => none

/-- Main has one request when it is about to start a job. -/
theorem Pc.startReq_card_le (pc : Pc) : pc.startReq.toFinset.card ≤ pc.opening := by
  cases pc with
  | call fn req plan l => cases fn <;> simp [Pc.startReq, Pc.opening]
  | _ => simp [Pc.startReq]

section
variable {cfg : Cfg} {s : Sys}

/-- What main has in its hands is for `nct_mount` or for a job that it starts. -/
theorem Pc.main_hand {mnt : Mnt} {r : ReqId} {pc : Pc} (hFits : Agent.main.Fits pc)
    (hHeld : pc.holds mnt r) : pc.mountReq = some r ∨ pc.startReq = some r := by
  cases pc with
  | call fn req plan l =>
      obtain rfl : req = r := hHeld
      rcases hFits with ⟨rfl, -⟩ | ⟨rfl, -⟩ | ⟨rfl, -⟩
      · exact Or.inl rfl
      · exact Or.inl rfl
      · exact Or.inr rfl
  | check fn req ret cc =>
      cases fn with
      | mount => exact Or.inl (congrArg some hHeld.1)
      | _ => cases hHeld
  | back fn req ret freed =>
      cases fn with
      | mount => exact Or.inl (congrArg some hHeld.1)
      | _ => cases hHeld
  | wait req => exact Or.inl (congrArg some hHeld.1)
  | decode req => exact Or.inl (congrArg some hHeld)
  | taken req rep => cases hFits
  | callback req job => cases hFits
  | testCb req => cases hFits
  | _ => cases hHeld

theorem Pc.mountReq_of_mounting {pc : Pc} {r : ReqId} (h : pc.mounting = some r) :
    pc.mountReq = some r := by
  cases pc with
  | call fn req plan l => cases fn <;> first | exact h | cases h
  | decode req => cases h
  | _ => exact h

/-- A receive thread that has a request in its hands is at work on its job, unless
the request is that of `nct_mount`. -/
theorem Pc.recv_hand {mnt : Mnt} {t : Nat} {r : ReqId} {pc : Pc} (hFits : (Agent.recv t).Fits pc)
    (hHeld : pc.holds mnt r) :
    pc.works mnt = true ∨ (pc.taking = some r ∧ mnt.reqCb r = none) := by
  cases pc with
  | taken req rep =>
      obtain rfl : req = r := hHeld
      cases hCb : mnt.reqCb req with
      | none => exact Or.inr ⟨rfl, rfl⟩
      | some job => exact Or.inl (by simp [Pc.works, hCb])
  | testCb req =>
      obtain ⟨rfl, hCb⟩ := hHeld
      exact Or.inl (Option.isSome_iff_ne_none.mpr hCb)
  | callback req job => exact Or.inl rfl
  | call fn req plan l =>
      obtain ⟨rfl, -⟩ := hFits
      exact Or.inl rfl
  | check fn req ret cc =>
      obtain ⟨rfl, -⟩ := hFits
      cases hHeld
  | back fn req ret freed =>
      obtain ⟨rfl, -⟩ := hFits
      cases hHeld
  | wait req => cases hFits
  | decode req => cases hFits
  | _ => cases hHeld

/-- The requests in use are those of the jobs that go on, that of a job that main
is about to start, and that of `nct_mount`. -/
theorem Living.in_use_le (h : Living cfg s) :
    s.inHand cfg + s.inFlight.card ≤
      s.live cfg + (s.pc .main).startReq.toFinset.card + (s.pc .main).mountReq.toFinset.card := by
  have hOwned := h.kept.owned
  let jobs := s.inFlight.filter fun r => (s.mnt.reqCb r).isSome
  let work := (Finset.range cfg.tdsMax).biUnion fun t =>
    if (s.pc (.recv t)).works s.mnt then ((s.pc (.recv t)).hand s.mnt).toFinset else ∅
  have hJobs : jobs.card = s.flights := by
    rw [Sys.flights, Finset.card_filter]
    refine Finset.sum_congr rfl fun r _ => ?_
    cases s.mnt.reqCb r <;> rfl
  have hWork : work.card ≤ s.working cfg := by
    refine Finset.card_biUnion_le.trans (Finset.sum_le_sum fun t _ => ?_)
    cases (s.pc (.recv t)).works s.mnt
    · simp
    · cases (s.pc (.recv t)).hand s.mnt <;> simp
  have hMounting : ∀ r, s.Away r → s.mnt.reqCb r = none → (s.pc .main).mountReq = some r :=
    fun r hAway hCb => Pc.mountReq_of_mounting (h.awaited r hAway hCb)
  have hSub : s.hands cfg ∪ s.inFlight ⊆ jobs ∪ work ∪ (s.pc .main).startReq.toFinset ∪
      (s.pc .main).mountReq.toFinset := by
    intro r hr
    simp only [jobs, work, Finset.mem_union, Finset.mem_filter, Finset.mem_biUnion,
      Finset.mem_range, Option.mem_toFinset, Option.mem_def]
    rcases Finset.mem_union.mp hr with hHand | hFlight
    · obtain ⟨a, ha⟩ := h.mem_hands.mp hHand
      cases a with
      | main =>
          rcases Pc.main_hand (hOwned.fits .main) ha with hMount | hStart
          · exact Or.inr hMount
          · exact Or.inl (Or.inr hStart)
      | recv t =>
          rcases Pc.recv_hand (hOwned.fits (.recv t)) ha with hWorks | ⟨hTaking, hCb⟩
          · refine Or.inl (Or.inl (Or.inr ⟨t, Cfg.recv_mem_agents.mp (h.held_mem ha), ?_⟩))
            rw [if_pos hWorks, Option.mem_toFinset]
            exact Pc.hand_eq_some.mpr ha
          · exact Or.inr (hMounting r (Or.inr ⟨t, hTaking⟩) hCb)
    · cases hCb : s.mnt.reqCb r with
      | none => exact Or.inr (hMounting r (Or.inl hFlight) hCb)
      | some job => exact Or.inl (Or.inl (Or.inl ⟨hFlight, rfl⟩))
  have hDisjoint : Disjoint (s.hands cfg) s.inFlight := by
    refine Finset.disjoint_left.mpr fun r hHand hFlight => ?_
    obtain ⟨a, ha⟩ := h.mem_hands.mp hHand
    exact Place.noConfusion (hOwned.exclusive (.held a) .flight r ha hFlight)
  calc s.inHand cfg + s.inFlight.card
      = (s.hands cfg ∪ s.inFlight).card := by
        rw [Finset.card_union_of_disjoint hDisjoint, h.hands_card]
    _ ≤ (jobs ∪ work ∪ (s.pc .main).startReq.toFinset ∪ (s.pc .main).mountReq.toFinset).card :=
        Finset.card_le_card hSub
    _ ≤ jobs.card + work.card + (s.pc .main).startReq.toFinset.card +
          (s.pc .main).mountReq.toFinset.card := by
        refine (Finset.card_union_le _ _).trans (Nat.add_le_add_right ?_ _)
        refine (Finset.card_union_le _ _).trans (Nat.add_le_add_right ?_ _)
        exact Finset.card_union_le _ _
    _ ≤ _ := by
        rw [Sys.live]
        omega

end

/-- Main starts no job before `nct_mount` is done. -/
def Sys.MountsFirst (s : Sys) : Prop := (s.pc .main).early = true → s.jobIdx = 0

/-- Main has started no job before it is done with its mount. -/
theorem Sys.MountsFirst.frame {s s' : Sys} {a : Agent} (h : s.MountsFirst)
    (hOther : ∀ b, b ≠ a → s'.pc b = s.pc b)
    (hEarly : a = .main → (s'.pc .main).early = true → (s.pc .main).early = true)
    (hIdx : s'.jobIdx = s.jobIdx) : s'.MountsFirst := by
  intro hNow
  rw [hIdx]
  by_cases ha : a = .main
  · exact h (hEarly ha hNow)
  · exact h (by rwa [hOther _ (Ne.symm ha)] at hNow)

/-- No step lets main start a job before its mount. -/
theorem Sys.MountsFirst.step {cfg : Cfg} {s s' : Sys} {act : Act} (h : s.MountsFirst)
    (hStep : Nct.step cfg s act = some s') : s'.MountsFirst := by
  obtain ⟨hCase, -⟩ := step_cases hStep
  have hOther := fun b (hb : b ≠ act.agent) => step_pc_other hCase hb
  generalize act.agent = a at hCase hOther
  cases hCase with
  | started hPc =>
      intro hNow
      rw [Sys.goto_pc_self] at hNow
      cases hNow
  | alloc hPc hHead =>
      intro hNow
      rw [Sys.goto_pc_self] at hNow
      cases hNow
  | prepare hPc hPrep hDo =>
      refine h.frame hOther (fun ha => ?_) (prepare_counts hDo).1.jobIdx
      subst ha
      rw [Sys.goto_pc_self, hPc]
      simp
  | refuse hPc | free hPc | send hPc | checked hPc =>
      refine h.frame hOther (fun ha => ?_) rfl
      subst ha
      rw [Sys.goto_pc_self, hPc]
      simp
  | cantDecode | nullSlot | xidMismatch | mountFailed | sendCheck =>
      exact h.frame hOther (fun _ hNow => hNow) rfl
  | _ => exact h.frame hOther (by simp [*, Pc.early]) rfl

theorem Sys.MountsFirst.atBoot : Sys.boot.MountsFirst := fun _ => rfl

theorem Pc.early_of_mountReq {pc : Pc} {req : ReqId} (h : pc.mountReq = some req) :
    pc.early = true := by
  cases pc with
  | call fn req plan l => cases fn <;> first | rfl | cases h
  | check fn req ret cc => cases fn <;> first | rfl | cases h
  | back fn req ret freed => cases fn <;> first | rfl | cases h
  | wait req | decode req => rfl
  | _ => cases h

/-- Each receive thread has one spare request at most. -/
theorem Sys.spares_le (cfg : Cfg) (s : Sys) : s.spares cfg ≤ cfg.tdsMax := by
  have hLe := Finset.card_filter_le (Finset.range cfg.tdsMax) fun t => (s.req0 t).isSome
  rwa [Finset.card_range] at hLe

/-- A thread that has yet to allocate its spare request leaves one for it. -/
theorem Sys.spares_lt {cfg : Cfg} {s : Sys} {t : Nat} (ht : t < cfg.tdsMax)
    (hNone : s.req0 t = none) : s.spares cfg < cfg.tdsMax := by
  have hSub : (Finset.range cfg.tdsMax).filter (fun u => (s.req0 u).isSome) ⊂
      Finset.range cfg.tdsMax := by
    refine Finset.filter_ssubset.mpr ⟨t, Finset.mem_range.mpr ht, ?_⟩
    simp [hNone]
  have hLt := Finset.card_lt_card hSub
  rwa [Finset.card_range] at hLt

def Pc.asks (pc : Pc) : Prop := pc = .mount ∨ pc = .alloc

section
variable {cfg : Cfg} {s : Sys}

/-- Before `nct_mount` is done the only request in use is its own. -/
theorem Living.in_use_early (h : Living cfg s) (hFirst : s.MountsFirst)
    (hEarly : (s.pc .main).early = true) :
    s.inHand cfg + s.inFlight.card + s.refused ≤ (s.pc .main).mountReq.toFinset.card := by
  have hUse := h.in_use_le
  have hStart := (s.pc .main).startReq_card_le
  have hJobs := h.kept.accounted.jobs
  have hRaised := h.kept.accounted.raised
  rw [hFirst hEarly, Pc.inBody_of_early hEarly] at hRaised
  omega

/-- After it they are those of the jobs that main has counted in. -/
theorem Living.in_use_late (h : Living cfg s) (hLate : (s.pc .main).early = false) :
    s.inHand cfg + s.inFlight.card + s.refused + (s.pc .main).opening ≤
      cfg.jobsMax.toNat + (s.pc .main).startReq.toFinset.card := by
  have hUse := h.in_use_le
  have hMount : (s.pc .main).mountReq = none := by
    by_contra hSome
    obtain ⟨req, hReq⟩ := Option.ne_none_iff_exists'.mp hSome
    exact absurd (hLate.symm.trans (Pc.early_of_mountReq hReq)) (by simp)
  have hJobs := h.kept.accounted.jobs
  have hRaised := h.kept.accounted.raised
  have hBound := h.kept.accounted.bound
  rw [hMount, Option.toFinset_none, Finset.card_empty] at hUse
  omega

/-- Besides the spares, no more requests are in use than there are jobs, or the one of
the mount. -/
theorem Living.in_use_bound (h : Living cfg s) (hFirst : s.MountsFirst) :
    s.inHand cfg + s.inFlight.card + s.refused ≤ max 1 cfg.jobsMax.toNat := by
  cases hEarly : (s.pc .main).early with
  | true =>
      have hUse := h.in_use_early hFirst hEarly
      have hOne : (s.pc .main).mountReq.toFinset.card ≤ 1 := by
        cases (s.pc .main).mountReq <;> simp
      omega
  | false =>
      have hUse := h.in_use_late hEarly
      have hStart := (s.pc .main).startReq_card_le
      omega

/-- One less when main is about to allocate another. -/
theorem Living.in_use_lt (h : Living cfg s) (hFirst : s.MountsFirst) (hAsks : (s.pc .main).asks) :
    s.inHand cfg + s.inFlight.card + s.refused < max 1 cfg.jobsMax.toNat := by
  rcases hAsks with hPc | hPc
  · have hUse := h.in_use_early hFirst (by simp [hPc, Pc.early])
    simp only [hPc, Pc.mountReq, Pc.mounting, Option.toFinset_none, Finset.card_empty] at hUse
    omega
  · have hUse := h.in_use_late (by simp [hPc, Pc.early])
    simp only [hPc, Pc.startReq, Pc.opening, Option.toFinset_none, Finset.card_empty] at hUse
    omega

/-- The pool has a request if those in use and the spare ones leave one. -/
theorem Living.head_of_lt (h : Living cfg s)
    (hLt : s.spares cfg + (s.inHand cfg + s.inFlight.card + s.refused) < NCT_REQ_MAX) :
    ∃ req, s.mnt.reqHead = some req := by
  obtain ⟨free, hChain, hTotal⟩ := h.conserved
  by_contra hNone
  rw [not_exists, ← Option.eq_none_iff_forall_ne_some] at hNone
  rw [hNone] at hChain
  have hNil : Chain s.mnt.reqNext none [] := rfl
  obtain rfl := hChain.unique hNil
  simp only [List.length_nil] at hTotal
  omega

/-- With room for the threads and the jobs, the pool has a request for every
thread that is about to allocate one. -/
theorem Living.pool_ready (h : Living cfg s) (hFirst : s.MountsFirst)
    (hSize : cfg.tdsMax + max 1 cfg.jobsMax.toNat ≤ NCT_REQ_MAX)
    (hNeeds : (s.pc .main).asks ∨ ∃ t < cfg.tdsMax, s.pc (.recv t) = .boot) :
    ∃ req, s.mnt.reqHead = some req := by
  rcases hNeeds with hAsks | ⟨t, ht, hPc⟩
  · have hUse := h.in_use_lt hFirst hAsks
    have hSpares := s.spares_le cfg
    exact h.head_of_lt (by omega)
  · have hUse := h.in_use_bound hFirst
    have hSpares := Sys.spares_lt ht ((h.kept.owned.booted t).mp hPc)
    exact h.head_of_lt (by omega)

end

theorem run_first {cfg : Cfg} {s : Races}
    (run : Run (raceStep cfg) (TakenOnce (NoStaleTest cfg)) Races.boot s) : s.sys.MountsFirst :=
  ((ownedWithin_robust.and (fun _ _ h => h) fun _ _ h => h).run
    ⟨⟨Owned.atBoot, fun _ _ => rfl⟩, Sys.MountsFirst.atBoot⟩
    (fun _ _ _ h hOk hStep => ⟨OwnedWithin.step h.1 hOk hStep, h.2.step hStep⟩)
    (fun _ _ h => noStaleTest_takes h) run).1.2

/-- The threads and the jobs together need no more requests than there are, so
`nct_req_alloc` finds one whenever it is called: no thread ever sleeps in it. -/
theorem alloc_never_blocks (cfg : Cfg) (hSize : cfg.tdsMax + max 1 cfg.jobsMax.toNat ≤ NCT_REQ_MAX)
    (s : Races) (run : Run (raceStep cfg) (TakenOnce (NoStaleTest cfg)) Races.boot s)
    (hNeeds : (s.sys.pc .main).asks ∨ ∃ t < cfg.tdsMax, s.sys.pc (.recv t) = .boot) :
    ∃ req, s.sys.mnt.reqHead = some req :=
  (run_living run).1.pool_ready (run_first run) hSize hNeeds

/-- Main is about to allocate for its job. -/
theorem alloc_never_blocks_plainSteps : ∃ s : Sys, s.pc .main = .alloc ∧
    ∃ req, s.mnt.reqHead = some req := by
  obtain ⟨s, hRun, hPc⟩ : ∃ s, Run (step twoThreads) (NoStaleTest twoThreads) Sys.boot s ∧
      s.pc .main = .alloc :=
    Run.of_exec_any (mountSteps 2 getattrBody ++ (Agent.recv 0).steps 2 ++ Agent.main.steps 5)
      (by decide +kernel)
  have hRaces := races_of_run (fun _ _ hOk => hOk) hRun
  exact ⟨s, hPc, alloc_never_blocks twoThreads (by decide) ⟨s, fun _ => none⟩ hRaces
    (Or.inl (Or.inr hPc))⟩

end Nct
