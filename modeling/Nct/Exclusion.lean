import Nct.Clp
import Mathlib.Data.List.Pairwise

/-! Mutual exclusion of options. The option loop checks each option against
those given before it, and the outcome depends only on which options are given. -/
namespace Nct

/-- The excludes list of `o` declares that it excludes `x`: a list of letters, or
any letter after `*`, or any but those listed after `^`. -/
def ClpOption.Declares (o x : ClpOption) : Prop :=
  ∃ list, o.excludes = some list ∧
    ((list.head? = some '^' ∧ x.optopt ∉ list) ∨ list.head? = some '*' ∨
      (list.head? ≠ some '^' ∧ x.optopt ∈ list))

/-- The options have positional vectors of their own, and not the same. -/
def ClpOption.ParamsDiffer (o x : ClpOption) : Prop :=
  ∃ v w, o.paramv = some v ∧ x.paramv = some w ∧ v ≠ w

variable (optionv : List ClpOption)

/-- Two distinct options that one command line must not have both. -/
def MutuallyExclusive (o x : Fin optionv.length) : Prop :=
  o ≠ x ∧
    ((optionv.get o).Declares (optionv.get x) ∨ (optionv.get x).Declares (optionv.get o) ∨
      (optionv.get o).ParamsDiffer (optionv.get x))

/-- `strchr` finds the letter, or the list is `*`. -/
theorem excludesOpt_iff (o x : ClpOption) :
    excludesOpt o.excludes x.optopt = true ↔ o.Declares x := by
  unfold excludesOpt ClpOption.Declares
  cases o.excludes with
  | none => simp
  | some list => by_cases hCaret : list.head? = some '^' <;> simp [hCaret]

/-- Each has a vector of its own. -/
theorem paramsDiffer_iff (o x : ClpOption) :
    (o.paramv.isSome && x.paramv.isSome && o.paramv != x.paramv) = true ↔ o.ParamsDiffer x := by
  unfold ClpOption.ParamsDiffer
  cases o.paramv <;> cases x.paramv <;> simp

/-- `clp_excludes2` asks both ways round. -/
theorem clpExcludes2_iff (o x : Fin optionv.length) :
    clpExcludes2 optionv o x = true ↔ MutuallyExclusive optionv o x := by
  simp only [clpExcludes2, Bool.and_eq_true, Bool.or_eq_true, bne_iff_ne, excludesOpt_iff,
    MutuallyExclusive, ← paramsDiffer_iff, or_assoc]

theorem MutuallyExclusive.symm {o x : Fin optionv.length} (h : MutuallyExclusive optionv o x) :
    MutuallyExclusive optionv x o := by
  obtain ⟨hne, hDeclared | hDeclared | ⟨v, w, hv, hw, hvw⟩⟩ := h
  · exact ⟨hne.symm, Or.inr (Or.inl hDeclared)⟩
  · exact ⟨hne.symm, Or.inl hDeclared⟩
  · exact ⟨hne.symm, Or.inr (Or.inr ⟨w, v, hw, hv, hvw.symm⟩)⟩

/-- An option on the command line whose conversion and action succeed. -/
structure Given where
  opt : Fin optionv.length
  optarg : Option CString
  finds : clpFind optionv (optionv.get opt).optopt = some opt
  converts : (optionv.get opt).cvtfunc.elim 0 (· optarg) = 0
  acts : (optionv.get opt).action.elim 0 (· optarg) = 0

variable {optionv}

/-- What `getopt_long` gives for it. -/
def Given.event (g : Given optionv) : Getopt := .opt (optionv.get g.opt).optopt g.optarg

def Given.paramv (g : Given optionv) : Option VecId := (optionv.get g.opt).paramv

theorem Given.paramv_eq {g h : Given optionv} (hOpt : g.opt = h.opt) : g.paramv = h.paramv := by
  simp only [Given.paramv, hOpt]

/-- The option excludes none that was given before. -/
def OptState.Admits (st : OptState optionv) (g : Given optionv) : Prop :=
  ∀ x, 1 ≤ st.given x → ¬ MutuallyExclusive optionv g.opt x

/-- Nothing given before excludes the option. -/
theorem clpExcludes_eq_none (st : OptState optionv) (g : Given optionv) :
    clpExcludes optionv st.given g.opt 1 = none ↔ st.Admits g := by
  simp [clpExcludes, OptState.Admits, ← clpExcludes2_iff]

/-- An option that is not excluded is counted, and its positional vector taken. -/
theorem takeOption_admitted {st : OptState optionv} {g : Given optionv} (h : st.Admits g) :
    ∃ st', takeOption optionv st (optionv.get g.opt).optopt g.optarg = .ok st' ∧
      (∀ x, 1 ≤ st'.given x ↔ x = g.opt ∨ 1 ≤ st.given x) ∧
      st'.paramv = g.paramv.or st.paramv := by
  simp only [takeOption, g.finds, (clpExcludes_eq_none st g).mpr h, g.converts, g.acts, ne_eq,
    not_true, if_false]
  refine ⟨_, rfl, fun x => ?_, rfl⟩
  by_cases hx : x = g.opt
  · simp [hx]
  · simp [hx]

/-- The loop ends at an option that is not admitted. -/
theorem takeOption_excluded {st : OptState optionv} {g : Given optionv} (h : ¬ st.Admits g) :
    ∃ x, takeOption optionv st (optionv.get g.opt).optopt g.optarg = .error (.excluded x) := by
  rw [← clpExcludes_eq_none] at h
  obtain ⟨x, hx⟩ := Option.ne_none_iff_exists'.mp h
  exact ⟨x, by simp only [takeOption, g.finds, hx]⟩

/-- The options of the sequence admit one another, and those given before. -/
def OptState.AdmitsAll (st : OptState optionv) (seq : List (Given optionv)) : Prop :=
  (∀ g ∈ seq, st.Admits g) ∧
    seq.Pairwise fun g h => ¬ MutuallyExclusive optionv g.opt h.opt

/-- The positional vector after the sequence: that of the last option with one. -/
def selected (paramv : Option VecId) (seq : List (Given optionv)) : Option VecId :=
  seq.foldl (fun paramv g => g.paramv.or paramv) paramv

/-- The loop gets through the sequence just if its options admit one another. -/
theorem optionLoop_iff (seq : List (Given optionv)) (st : OptState optionv) :
    (st.AdmitsAll seq → ∃ st', optionLoop optionv st (seq.map Given.event) = .ok st' ∧
      st'.paramv = selected st.paramv seq) ∧
    (¬ st.AdmitsAll seq →
      ∃ x, optionLoop optionv st (seq.map Given.event) = .error (.excluded x)) := by
  induction seq generalizing st with
  | nil =>
      refine ⟨fun _ => ⟨st, rfl, rfl⟩, fun h => absurd ?_ h⟩
      exact ⟨by simp, List.Pairwise.nil⟩
  | cons g seq ih =>
      simp only [List.map_cons, Given.event, optionLoop]
      by_cases hHead : st.Admits g
      · obtain ⟨st', hTake, hGiven, hParamv⟩ := takeOption_admitted hHead
        have hAll : st.AdmitsAll (g :: seq) ↔ st'.AdmitsAll seq := by
          simp only [OptState.AdmitsAll, OptState.Admits, hGiven, List.forall_mem_cons,
            List.pairwise_cons]
          constructor
          · rintro ⟨⟨-, hOld⟩, hFirst, hRest⟩
            refine ⟨fun h hh x hx => ?_, hRest⟩
            rcases hx with rfl | hx
            · exact fun hEx => hFirst h hh hEx.symm
            · exact hOld h hh x hx
          · rintro ⟨hOld, hRest⟩
            refine ⟨⟨hHead, fun h hh x hx => hOld h hh x (Or.inr hx)⟩, fun h hh hEx => ?_, hRest⟩
            exact hOld h hh g.opt (Or.inl rfl) hEx.symm
        rw [hTake, hAll]
        obtain ⟨hOk, hError⟩ := ih st'
        refine ⟨fun h => ?_, hError⟩
        obtain ⟨last, hLoop, hLast⟩ := hOk h
        exact ⟨last, hLoop, by rw [hLast, hParamv]; rfl⟩
      · obtain ⟨x, hTake⟩ := takeOption_excluded hHead
        rw [hTake]
        exact ⟨fun h => absurd (h.1 g List.mem_cons_self) hHead, fun _ => ⟨x, rfl⟩⟩

/-- Options without vectors leave the main vector selected. -/
theorem selected_none {seq : List (Given optionv)} (h : ∀ g ∈ seq, g.paramv = none)
    (paramv : Option VecId) : selected paramv seq = paramv := by
  induction seq generalizing paramv with
  | nil => rfl
  | cons g seq ih =>
      rw [selected, List.foldl_cons, h g List.mem_cons_self]
      exact ih (fun g' hg' => h g' (List.mem_cons_of_mem _ hg')) paramv

/-- Options that agree on their positional vector select it. -/
theorem selected_some {seq : List (Given optionv)} {v : VecId}
    (hAgree : ∀ g ∈ seq, ∀ w, g.paramv = some w → w = v) {paramv : Option VecId}
    (h : paramv = some v ∨ ∃ g ∈ seq, g.paramv = some v) :
    selected paramv seq = some v := by
  induction seq generalizing paramv with
  | nil => simpa [selected] using h
  | cons g seq ih =>
      rw [selected, List.foldl_cons]
      apply ih fun g' hg' => hAgree g' (List.mem_cons_of_mem _ hg')
      cases hg : g.paramv with
      | some w =>
          left
          rw [hAgree g List.mem_cons_self w hg]
          rfl
      | none =>
          rcases h with hParamv | ⟨g', hMem, hg'⟩
          · exact Or.inl (by simpa using hParamv)
          · rcases List.mem_cons.mp hMem with rfl | hTail
            · rw [hg] at hg'
              cases hg'
            · exact Or.inr ⟨g', hTail, hg'⟩

/-- The same options are given in both, in any order and any number of times. -/
def SameOptions (seq seq' : List (Given optionv)) : Prop :=
  ∀ o, (∃ g ∈ seq, g.opt = o) ↔ ∃ g ∈ seq', g.opt = o

theorem SameOptions.of_perm {seq seq' : List (Given optionv)} (h : seq'.Perm seq) :
    SameOptions seq seq' := fun o => by simp only [h.mem_iff]

/-- At the start only the options of the sequence itself can exclude one another. -/
theorem admitsAll_start_iff (paramv : Option VecId) (seq : List (Given optionv)) :
    (OptState.start optionv paramv).AdmitsAll seq ↔
      ∀ g ∈ seq, ∀ h ∈ seq, ¬ MutuallyExclusive optionv g.opt h.opt := by
  constructor
  · rintro ⟨-, hPairs⟩ g hg h hh
    have hSymm : Std.Symm fun g h : Given optionv => ¬ MutuallyExclusive optionv g.opt h.opt :=
      ⟨fun g h hNot hEx => hNot hEx.symm⟩
    exact hPairs.forall_of_forall (fun g _ hEx => hEx.1 rfl) hg hh
  · intro hAll
    refine ⟨fun g _ x hx => absurd hx (by simp [OptState.start]), ?_⟩
    exact List.pairwise_of_forall_mem_list hAll

/-- Whether options exclude one another does not depend on how often they are given. -/
theorem SameOptions.compatible_iff {seq seq' : List (Given optionv)} (hSame : SameOptions seq seq') :
    (∀ g ∈ seq, ∀ h ∈ seq, ¬ MutuallyExclusive optionv g.opt h.opt) ↔
      ∀ g ∈ seq', ∀ h ∈ seq', ¬ MutuallyExclusive optionv g.opt h.opt := by
  constructor
  · intro hAll g' hg' h' hh'
    obtain ⟨g, hg, hgOpt⟩ := (hSame g'.opt).mpr ⟨g', hg', rfl⟩
    obtain ⟨h, hh, hhOpt⟩ := (hSame h'.opt).mpr ⟨h', hh', rfl⟩
    rw [← hgOpt, ← hhOpt]
    exact hAll g hg h hh
  · intro hAll g hg h hh
    obtain ⟨g', hg', hgOpt⟩ := (hSame g.opt).mp ⟨g, hg, rfl⟩
    obtain ⟨h', hh', hhOpt⟩ := (hSame h.opt).mp ⟨h, hh, rfl⟩
    rw [← hgOpt, ← hhOpt]
    exact hAll g' hg' h' hh'

/-- Options that do not exclude each other select one vector, in whatever order. -/
theorem SameOptions.selected {seq seq' : List (Given optionv)} (hSame : SameOptions seq seq')
    (hAll : ∀ g ∈ seq, ∀ h ∈ seq, ¬ MutuallyExclusive optionv g.opt h.opt)
    (paramv : Option VecId) : selected paramv seq' = selected paramv seq := by
  by_cases hNone : ∀ g ∈ seq, g.paramv = none
  · rw [selected_none hNone, selected_none]
    intro g' hg'
    obtain ⟨g, hg, hOpt⟩ := (hSame g'.opt).mpr ⟨g', hg', rfl⟩
    exact (Given.paramv_eq hOpt).symm.trans (hNone g hg)
  · push Not at hNone
    obtain ⟨g, hg, hSome⟩ := hNone
    obtain ⟨v, hv⟩ := Option.ne_none_iff_exists'.mp hSome
    have hAgree : ∀ h ∈ seq, ∀ w, h.paramv = some w → w = v := by
      intro h hh w hw
      by_contra hne
      have hDistinct : h.opt ≠ g.opt := by
        intro he
        rw [Given.paramv_eq he, hv] at hw
        exact hne (Option.some.inj hw).symm
      exact hAll h hh g hg ⟨hDistinct, Or.inr (Or.inr ⟨w, v, hw, hv, hne⟩)⟩
    rw [selected_some hAgree (Or.inr ⟨g, hg, hv⟩)]
    apply selected_some
    · intro h' hh' w hw
      obtain ⟨h, hh, hOpt⟩ := (hSame h'.opt).mpr ⟨h', hh', rfl⟩
      exact hAgree h hh w ((Given.paramv_eq hOpt).trans hw)
    · obtain ⟨g', hg', hOpt⟩ := (hSame g.opt).mp ⟨g, hg, rfl⟩
      exact Or.inr ⟨g', hg', (Given.paramv_eq hOpt).trans hv⟩

/-- At the start of the loop: which sequences get through it, what they select,
and that the others are stopped by the exclusion check. -/
theorem optionLoop_start (paramv : Option VecId) (seq : List (Given optionv)) :
    let parse := optionLoop optionv (OptState.start optionv paramv) (seq.map Given.event)
    ((∃ st, parse = .ok st) ↔
      ∀ g ∈ seq, ∀ h ∈ seq, ¬ MutuallyExclusive optionv g.opt h.opt) ∧
    (∀ st, parse = .ok st → st.paramv = selected paramv seq) ∧
    ((∃ x, parse = .error (.excluded x)) ↔ ¬ ∃ st, parse = .ok st) := by
  intro parse
  obtain ⟨hOk, hError⟩ := optionLoop_iff seq (OptState.start optionv paramv)
  rw [← admitsAll_start_iff paramv seq]
  by_cases hAll : (OptState.start optionv paramv).AdmitsAll seq
  · obtain ⟨st, hLoop, hParamv⟩ := hOk hAll
    refine ⟨iff_of_true ⟨st, hLoop⟩ hAll, fun st' hst' => ?_, ?_⟩
    · obtain rfl := Except.ok.inj (hLoop.symm.trans hst')
      exact hParamv
    · refine iff_of_false ?_ (not_not.mpr ⟨st, hLoop⟩)
      rintro ⟨x, hx⟩
      cases hLoop.symm.trans hx
  · obtain ⟨x, hLoop⟩ := hError hAll
    have hNot : ¬ ∃ st, parse = .ok st := by
      rintro ⟨st, hst⟩
      cases hLoop.symm.trans hst
    refine ⟨iff_of_false hNot hAll, fun st hst => absurd ⟨st, hst⟩ hNot, ?_⟩
    exact iff_of_true ⟨x, hLoop⟩ hNot

/-- A sequence of options is rejected by the exclusion check just if two of them
are mutually exclusive. So the order in which options are given, and how often,
changes neither the verdict nor the positional vector selected. -/
theorem exclusion_order_free (optionv : List ClpOption) (paramv : Option VecId)
    (seq : List (Given optionv)) :
    let parse := fun seq : List (Given optionv) =>
      optionLoop optionv (OptState.start optionv paramv) (seq.map Given.event)
    ((∃ x, parse seq = .error (.excluded x) ∧ (Stop.excluded x).rc = EX_USAGE) ↔
      ∃ g ∈ seq, ∃ h ∈ seq, MutuallyExclusive optionv g.opt h.opt) ∧
    (∀ seq', seq'.Perm seq ∨ SameOptions seq seq' →
      ((∃ st, parse seq = .ok st) ↔ ∃ st, parse seq' = .ok st) ∧
      ∀ st st', parse seq = .ok st → parse seq' = .ok st' → st'.paramv = st.paramv) := by
  intro parse
  obtain ⟨hAccept, hParamv, hReject⟩ := optionLoop_start paramv seq
  refine ⟨?_, fun seq' hSeq => ?_⟩
  · calc
      (∃ x, parse seq = .error (.excluded x) ∧ (Stop.excluded x).rc = EX_USAGE)
      _ ↔ ∃ x, parse seq = .error (.excluded x) := exists_congr fun _ => and_iff_left rfl
      _ ↔ ¬ ∃ st, parse seq = .ok st := hReject
      _ ↔ ¬ ∀ g ∈ seq, ∀ h ∈ seq, ¬ MutuallyExclusive optionv g.opt h.opt := not_congr hAccept
      _ ↔ ∃ g ∈ seq, ∃ h ∈ seq, MutuallyExclusive optionv g.opt h.opt := by
        push Not
        rfl
  · have hSame : SameOptions seq seq' := hSeq.elim SameOptions.of_perm id
    obtain ⟨hAccept', hParamv', -⟩ := optionLoop_start paramv seq'
    refine ⟨?_, fun st st' hst hst' => ?_⟩
    · rw [hAccept, hAccept', hSame.compatible_iff]
    · rw [hParamv st hst, hParamv' st' hst', hSame.selected (hAccept.mp ⟨st, hst⟩)]

end Nct
