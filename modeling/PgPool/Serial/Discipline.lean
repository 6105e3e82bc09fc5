import PgPool.Serial.Plan

/-!
# The discipline of a child

Whatever the nodes and the other children do, a child has at most one message waiting in a connection,
settles a write on all nodes before it commits anything, and knows what has become of all of its writes
but the last.
-/

namespace PgPool.Serial

open PgPool.Serial.System

/-- No node still has to find out about a write. -/
def SettledAll (env : Cluster) (fate : NodeId → WriteId → Fate) (w : WriteId) : Prop :=
  ∀ i ∈ env.nodes, fate i w ≠ .unknown

/-- What a message in a connection waits for. -/
structure Waiting (env : Cluster) (s : System) (c : ChildId) (i : NodeId) (m : Msg) : Prop where
  first : First i (s.child c).pending
  write : ∀ w, m.write? = some w →
    ((s.child c).writing = some w ∧ s.fate i w = .unknown) ∧
      Waits i (s.child c).pending ∧ NoWritesTo i (s.child c).pending
  commits : m.commits → ∀ w, s.owner w = c → s.fate i w = .pending → SettledAll env s.fate w

structure Discipline (env : Cluster) (s : System) : Prop where
  fresh : ∀ i w, s.next ≤ w → s.fate i w = .unknown
  owner : ∀ c w, (s.child c).writing = some w → s.owner w = c ∧ w < s.next
  settled : ∀ w, w < s.next → (s.child (s.owner w)).writing ≠ some w → SettledAll env s.fate w
  sent : ∀ c w i, i ∈ env.nodes → (s.child c).writing = some w → s.fate i w = .unknown →
    (∃ m, .send i m ∈ (s.child c).pending ∧ m.write? = some w) ∨
      ∃ m, s.queue c i = [m] ∧ m.write? = some w
  planned : ∀ c i m w, .send i m ∈ (s.child c).pending → m.write? = some w →
    (s.child c).writing = some w ∧ s.fate i w = .unknown
  queued : ∀ c i, s.queue c i = [] ∨ ∃ m, s.queue c i = [m] ∧ Waiting env s c i m
  good : ∀ c, Good (s.child c).pending

section

variable {env : Cluster} {s : System} {c : ChildId} {i : NodeId} {m : Msg} {w : WriteId}

theorem discipline_init : Discipline env System.init where
  fresh _ _ _ := rfl
  owner := by simp [System.init, freshChild]
  settled := by simp [System.init]
  sent := by simp [System.init, freshChild]
  planned := by simp [System.init, freshChild]
  queued _ _ := .inl rfl
  good _ := trivial

namespace Discipline

/-- There is only one message in a connection. -/
theorem waiting (h : Discipline env s) {rest : List Msg} (hq : s.queue c i = m :: rest) :
    rest = [] ∧ Waiting env s c i m := by
  rcases h.queued c i with hnil | ⟨m', hm', hwaiting⟩
  · simp [hnil] at hq
  · rw [hm'] at hq
    cases hq
    exact ⟨rfl, hwaiting⟩

/-- Transactions end, and no message is handled. -/
theorem setFate (h : Discipline env s) {f : WriteId → Fate}
    (hunknown : ∀ w, f w = .unknown ↔ s.fate i w = .unknown)
    (hpending : ∀ w, f w = .pending → s.fate i w = .pending) : Discipline env (s.setFate i f) := by
  have unknown : ∀ j w, (s.setFate i f).fate j w = .unknown ↔ s.fate j w = .unknown := by grind
  have pending : ∀ j w, (s.setFate i f).fate j w = .pending → s.fate j w = .pending := by grind
  have all : ∀ w, SettledAll env s.fate w → SettledAll env (s.setFate i f).fate w :=
    fun w hw j hj => (unknown j w).not.mpr (hw j hj)
  constructor
  · exact fun j w hw => (unknown j w).mpr (h.fresh j w hw)
  · exact h.owner
  · exact fun w hw hc => all w (h.settled w hw hc)
  · exact fun c w j hj hw hu => h.sent c w j hj hw ((unknown j w).mp hu)
  · exact fun c j m w hop hw =>
      ⟨(h.planned c j m w hop hw).1, (unknown j w).mpr (h.planned c j m w hop hw).2⟩
  · intro c j
    refine (h.queued c j).imp id fun ⟨m, hq, hm⟩ => ⟨m, hq, hm.first, fun w hw => ?_, ?_⟩
    · obtain ⟨⟨hwriting, hu⟩, hrest⟩ := hm.write w hw
      exact ⟨⟨hwriting, (unknown j w).mpr hu⟩, hrest⟩
    · exact fun hc w hw hp => all w (hm.commits hc w hw (pending j w hp))
  · exact h.good

/-- A node has got to a message other than a write. -/
theorem dequeue (h : Discipline env s) (hq : s.queue c i = [m]) (hm : m.write? = none) :
    Discipline env (s.setQueue c i []) where
  fresh := h.fresh
  owner := h.owner
  settled := h.settled
  sent d w j hj hw hu := by
    refine (h.sent d w j hj hw hu).imp id fun ⟨m', hq', hm'⟩ => ⟨m', ?_, hm'⟩
    have : ¬(d = c ∧ j = i) := by
      intro hdj
      rw [hdj.1, hdj.2, hq] at hq'
      cases hq'
      simp [hm] at hm'
    simpa [this] using hq'
  planned := h.planned
  queued d j := by
    by_cases hdj : d = c ∧ j = i
    · exact .inl (by simp [hdj])
    · refine (h.queued d j).imp (fun hnil => by simpa [hdj] using hnil) fun ⟨m', hq', hm'⟩ =>
        ⟨m', by simpa [hdj] using hq', hm'.first, hm'.write, hm'.commits⟩
  good := h.good

/-- A node has got to a write. -/
theorem handled (h : Discipline env s) (hq : s.queue c i = [m]) (hm : m.write? = some w) {f : Fate}
    (hf : f ≠ .unknown) :
    Discipline env ((s.setFate i (Function.update (s.fate i) w f)).setQueue c i []) := by
  obtain ⟨⟨hwriting, hu⟩, -, hno⟩ := (h.waiting hq).2.write w hm
  obtain ⟨hown, hlt⟩ := h.owner c w hwriting
  set t := (s.setFate i (Function.update (s.fate i) w f)).setQueue c i [] with ht
  have child : t.child = s.child := rfl
  have fate : ∀ j v, ¬(j = i ∧ v = w) → t.fate j v = s.fate j v := by
    intro j v hjv
    by_cases hj : j = i
    · have hv : v ≠ w := fun hv => hjv ⟨hj, hv⟩
      subst hj
      exact (congrFun (setFate_fate _) v).trans (by simp [hv])
    · exact (congrFun (setFate_fate _) v).trans (by simp [hj])
  have here : t.fate i w = f := (congrFun (setFate_fate _) w).trans (by simp)
  have unknown : ∀ j v, t.fate j v = .unknown → s.fate j v = .unknown := by
    intro j v hv
    by_cases hjv : j = i ∧ v = w
    · rw [hjv.1, hjv.2, here] at hv
      exact (hf hv).elim
    · rwa [fate j v hjv] at hv
  have all : ∀ v, SettledAll env s.fate v → SettledAll env t.fate v :=
    fun v hv j hj hj' => hv j hj (unknown j v hj')
  have queue : ∀ d j, ¬(d = c ∧ j = i) → t.queue d j = s.queue d j := by
    intro d j hdj
    exact (setQueue_queue _).trans (by simp only [hdj, if_false]; rfl)
  have empty : t.queue c i = [] := (setQueue_queue _).trans (by simp)
  constructor
  · intro j v hv
    rw [fate j v (by rintro ⟨-, rfl⟩; exact absurd hv (Nat.not_le.mpr hlt))]
    exact h.fresh j v hv
  · exact h.owner
  · exact fun v hv hc => all v (h.settled v hv hc)
  · intro d v j hj hv hvu
    refine (h.sent d v j hj hv (unknown j v hvu)).imp_right ?_
    rintro ⟨m', hq', hm'⟩
    refine ⟨m', ?_, hm'⟩
    have : ¬(d = c ∧ j = i) := by
      rintro ⟨rfl, rfl⟩
      rw [child, hwriting] at hv
      cases hv
      exact hf (here.symm.trans hvu)
    rwa [queue d j this]
  · intro d j m' v hop hv
    obtain ⟨hd, hvu⟩ := h.planned d j m' v hop hv
    refine ⟨hd, ?_⟩
    rw [fate j v, hvu]
    rintro ⟨rfl, rfl⟩
    have hdc : d = c := (h.owner d v hd).1.symm.trans hown
    subst hdc
    have := hno _ hop (by simp [Op.sendsTo])
    simp [Op.write?, hv] at this
  · intro d j
    by_cases hdj : d = c ∧ j = i
    · exact .inl (by rw [hdj.1, hdj.2, empty])
    · refine (h.queued d j).imp (fun hnil => by rw [queue d j hdj, hnil]) ?_
      rintro ⟨m', hq', hm'⟩
      refine ⟨m', by rw [queue d j hdj, hq'], hm'.first, fun v hv => ?_, fun hc v hv hp => ?_⟩
      · obtain ⟨⟨hd, hvu⟩, hrest⟩ := hm'.write v hv
        refine ⟨⟨hd, ?_⟩, hrest⟩
        rw [fate j v, hvu]
        rintro ⟨rfl, rfl⟩
        exact hdj ⟨(h.owner d v hd).1.symm.trans hown, rfl⟩
      · refine all v (hm'.commits hc v hv ?_)
        rwa [fate j v] at hp
        rintro ⟨rfl, rfl⟩
        exact hdj ⟨hv.symm.trans hown, rfl⟩
  · exact h.good

theorem setServer (h : Discipline env s) (server : Server) : Discipline env (s.setServer c i server) where
  fresh := h.fresh
  owner := h.owner
  settled := h.settled
  sent := h.sent
  planned := h.planned
  queued d j := (h.queued d j).imp id fun ⟨m', hq', hm'⟩ =>
    ⟨m', hq', hm'.first, hm'.write, hm'.commits⟩
  good := h.good

/-- A child takes an operation off its list that no message goes out with. -/
theorem setChild (h : Discipline env s) {child : ChildState}
    (hwriting : child.writing = (s.child c).writing)
    (hsub : ∀ op ∈ child.pending, op.write? ≠ none → op ∈ (s.child c).pending)
    (hsup : ∀ op ∈ (s.child c).pending, op.write? ≠ none → op ∈ child.pending)
    (hfirst : ∀ i, s.queue c i ≠ [] → First i (s.child c).pending → First i child.pending)
    (hwaits : ∀ i, s.queue c i ≠ [] → Waits i (s.child c).pending → Waits i child.pending)
    (hgood : Good child.pending) : Discipline env (s.setChild c child) := by
  have writing : ∀ d, ((s.setChild c child).child d).writing = (s.child d).writing := by grind
  constructor
  · exact h.fresh
  · exact fun d w hw => h.owner d w ((writing d).symm.trans hw)
  · exact fun w hw hc => h.settled w hw (by rwa [writing] at hc)
  · intro d w j hj hw hu
    refine (h.sent d w j hj ((writing d).symm.trans hw) hu).imp_left ?_
    rintro ⟨m', hop, hm'⟩
    refine ⟨m', ?_, hm'⟩
    by_cases hd : d = c
    · subst hd
      simpa using hsup _ hop (by simp [Op.write?, hm'])
    · simpa [hd] using hop
  · intro d j m' w hop hw
    rw [writing]
    refine h.planned d j m' w ?_ hw
    by_cases hd : d = c
    · subst hd
      exact hsub _ (by simpa using hop) (by simp [Op.write?, hw])
    · simpa [hd] using hop
  · intro d j
    refine (h.queued d j).imp_right ?_
    rintro ⟨m', hq', hm'⟩
    refine ⟨m', hq', ?_⟩
    by_cases hd : d = c
    · subst hd
      have hne : s.queue d j ≠ [] := by simp [hq']
      refine ⟨by simpa using hfirst j hne hm'.first, fun w hw => ?_, hm'.commits⟩
      obtain ⟨⟨hd, hu⟩, hwait, hno⟩ := hm'.write w hw
      refine ⟨⟨(writing d).trans hd, hu⟩, by simpa using hwaits j hne hwait, fun op hop hj => ?_⟩
      by_contra hop'
      exact hop' (hno op (hsub op (by simpa using hop) hop') hj)
    · have other : (s.setChild c child).child d = s.child d := (setChild_child _).trans (if_neg hd)
      exact ⟨by rw [other]; exact hm'.first, fun w hw => by rw [other]; exact hm'.write w hw,
        hm'.commits⟩
  · intro d
    by_cases hd : d = c
    · simpa [hd] using hgood
    · simpa [hd] using h.good d

/-- Nothing waits in a connection when the next message goes out. -/
theorem empty_of_send (h : Discipline env s) {rest : List Op}
    (hp : (s.child c).pending = .send i m :: rest) : s.queue c i = [] := by
  refine (h.queued c i).resolve_right fun ⟨m', _, hm'⟩ => ?_
  have := hm'.first
  rw [hp, first_cons] at this
  simp [Op.sendsTo] at this

theorem empty_of_endInternal (h : Discipline env s) {rest : List Op}
    (hp : (s.child c).pending = .endInternal i :: rest) : s.queue c i = [] := by
  refine (h.queued c i).resolve_right fun ⟨m', _, hm'⟩ => ?_
  have := hm'.first
  rw [hp, first_cons] at this
  simp [Op.sendsTo] at this

/-- A message goes out. -/
theorem send (h : Discipline env s) {rest : List Op} (hp : (s.child c).pending = .send i m :: rest) :
    Discipline env ((s.setChild c { s.child c with pending := rest }).setQueue c i
      (s.queue c i ++ [m])) := by
  obtain ⟨first, waits, ends, hgood⟩ : Good (.send i m :: rest) := hp ▸ h.good c
  have hempty := h.empty_of_send hp
  set t := (s.setChild c { s.child c with pending := rest }).setQueue c i (s.queue c i ++ [m]) with ht
  have self : t.child c = { s.child c with pending := rest } := (setChild_child _).trans (if_pos rfl)
  have pending : (t.child c).pending = rest := congrArg ChildState.pending self
  have other : ∀ d, d ≠ c → t.child d = s.child d := fun d hd => (setChild_child _).trans (if_neg hd)
  have writing : ∀ d, (t.child d).writing = (s.child d).writing := by
    intro d
    by_cases hd : d = c
    · subst hd
      rw [self]
    · rw [other d hd]
  have queue : ∀ d j, ¬(d = c ∧ j = i) → t.queue d j = s.queue d j := by
    intro d j hdj
    exact (setQueue_queue _).trans (by simp only [hdj, if_false]; rfl)
  have here : t.queue c i = [m] := (setQueue_queue _).trans (by simp [hempty])
  constructor
  · exact h.fresh
  · exact fun d w hw => h.owner d w ((writing d).symm.trans hw)
  · exact fun w hw hc => h.settled w hw (by rwa [writing] at hc)
  · intro d w j hj hw hu
    rcases h.sent d w j hj ((writing d).symm.trans hw) hu with ⟨m', hop, hm'⟩ | ⟨m', hq', hm'⟩
    · by_cases hd : d = c
      · subst hd
        rw [hp, List.mem_cons] at hop
        rcases hop with hop | hop
        · cases hop
          exact .inr ⟨_, here, hm'⟩
        · exact .inl ⟨m', by rwa [pending], hm'⟩
      · exact .inl ⟨m', by rwa [other d hd], hm'⟩
    · refine .inr ⟨m', ?_, hm'⟩
      rwa [queue d j]
      rintro ⟨rfl, rfl⟩
      simp [hempty] at hq'
  · intro d j m' w hop hw
    rw [writing]
    refine h.planned d j m' w ?_ hw
    by_cases hd : d = c
    · subst hd
      rw [pending] at hop
      simp [hp, hop]
    · rwa [other d hd] at hop
  · intro d j
    by_cases hdj : d = c ∧ j = i
    · obtain ⟨rfl, rfl⟩ := hdj
      refine .inr ⟨m, here, by rw [pending]; exact first j m rfl, fun w hw => ?_, fun hc w hw hpw => ?_⟩
      · rw [writing, pending]
        exact ⟨h.planned d j m w (by simp [hp]) hw, waits j m rfl (by simp [hw])⟩
      · by_cases hcur : (s.child d).writing = some w
        · -- the write has been sent to all nodes, and they are settled
          intro k hk hu
          rcases h.sent d w k hk hcur hu with ⟨m', hop, hm'⟩ | ⟨m', hq', hm'⟩
          · rw [hp, List.mem_cons] at hop
            rcases hop with hop | hop
            · cases hop
              simp [Msg.write?_eq_none_of_commits hc] at hm'
            · have := ends hc _ hop
              simp [Op.write?, hm'] at this
          · have := ((h.waiting hq').2.write w hm').2.1
            rw [hp, waits_cons] at this
            simp [Op.ends, hc] at this
        · have hlt : w < s.next := by
            by_contra hge
            have := h.fresh j w (Nat.not_lt.mp hge)
            simp [show s.fate j w = .pending from hpw] at this
          exact h.settled w hlt (by rwa [show s.owner w = d from hw])
    · refine (h.queued d j).imp (fun hnil => by rw [queue d j hdj, hnil]) ?_
      rintro ⟨m', hq', hm'⟩
      refine ⟨m', by rw [queue d j hdj, hq'], ?_⟩
      by_cases hd : d = c
      · subst hd
        have hfirst := hm'.first
        rw [hp, first_cons] at hfirst
        refine ⟨by rw [pending]; exact (hfirst.resolve_left (by simp)).2, fun w hw => ?_, hm'.commits⟩
        obtain ⟨hwr, hwait, hno⟩ := hm'.write w hw
        rw [hp, waits_cons] at hwait
        rw [writing, pending]
        exact ⟨hwr, (hwait.resolve_left (by simp)).2, fun op hop => hno op (by simp [hp, hop])⟩
      · exact ⟨by rw [other d hd]; exact hm'.first, fun w hw => by rw [other d hd]; exact hm'.write w hw,
          hm'.commits⟩
  · intro d
    by_cases hd : d = c
    · subst hd
      rwa [pending]
    · rw [other d hd]
      exact h.good d

/-- A child that has nothing to do knows what has become of its writes. -/
theorem idle (h : Discipline env s) (hp : (s.child c).pending = []) :
    (∀ i, s.queue c i = []) ∧ ∀ w, (s.child c).writing = some w → SettledAll env s.fate w := by
  have empty : ∀ i, s.queue c i = [] := by
    intro i
    refine (h.queued c i).resolve_right fun ⟨m, _, hm⟩ => ?_
    simpa [hp] using hm.first
  refine ⟨empty, fun w hw i hi hu => ?_⟩
  rcases h.sent c w i hi hw hu with ⟨m, hop, -⟩ | ⟨m, hq, -⟩
  · simp [hp] at hop
  · simp [empty i] at hq

/-- Something other than a write is asked for. -/
theorem request (h : Discipline env s) {r : Request} (hp : (s.child c).pending = [])
    (hr : r.write? = none) :
    Discipline env (s.setChild c { s.child c with pending := operations env (s.child c) r }) := by
  obtain ⟨empty, -⟩ := h.idle hp
  have none : NoWrites (operations env (s.child c) r) := by
    intro op hop
    cases hw : op.write? with
    | none => rfl
    | some w => simp [write?_operations env hop hw] at hr
  refine h.setChild rfl (fun op hop hw => (hw (none op hop)).elim) ?_ ?_ ?_
    (good_operations env _ r)
  · simp [hp]
  · simp [empty]
  · simp [empty]

/-- A write is asked for. -/
theorem request_write (h : Discipline env s) {r : Request} (hp : (s.child c).pending = [])
    (hr : r.write? = some s.next) :
    Discipline env
      ({ s with next := s.next + 1, owner := Function.update s.owner s.next c }.setChild c
        { s.child c with
          pending := operations env (s.child c) r
          writing := some s.next }) := by
  obtain ⟨empty, known⟩ := h.idle hp
  set child : ChildState :=
    { s.child c with pending := operations env (s.child c) r, writing := some s.next } with hchild
  set t := { s with next := s.next + 1, owner := Function.update s.owner s.next c }.setChild c child
    with ht
  have here : t.child c = child := (setChild_child _).trans (if_pos rfl)
  have other : ∀ d, d ≠ c → t.child d = s.child d := fun d hd => (setChild_child _).trans (if_neg hd)
  have new : t.owner s.next = c := Function.update_self ..
  have old : ∀ w, w ≠ s.next → t.owner w = s.owner w := fun w hw => Function.update_of_ne hw ..
  have unknown : ∀ i, s.fate i s.next = .unknown := fun i => h.fresh i _ (Nat.le_refl _)
  constructor
  · exact fun i w hw => h.fresh i w (Nat.le_of_succ_le hw)
  · intro d w hw
    by_cases hd : d = c
    · subst hd
      rw [here] at hw
      cases hw
      exact ⟨new, Nat.lt_succ_self _⟩
    · rw [other d hd] at hw
      obtain ⟨hown, hlt⟩ := h.owner d w hw
      exact ⟨(old w (Nat.ne_of_lt hlt)).trans hown, Nat.lt_succ_of_lt hlt⟩
  · intro w hw hc
    have hne : w ≠ s.next := by
      rintro rfl
      rw [new, here] at hc
      exact hc rfl
    have hlt : w < s.next := Nat.lt_of_le_of_ne (Nat.le_of_lt_succ hw) hne
    rw [old w hne] at hc
    by_cases hcur : (s.child (s.owner w)).writing = some w
    · by_cases hd : s.owner w = c
      · exact known w (hd ▸ hcur)
      · exact (hc (by rw [other _ hd]; exact hcur)).elim
    · exact h.settled w hlt hcur
  · intro d w j hj hw hu
    by_cases hd : d = c
    · subst hd
      rw [here] at hw ⊢
      cases hw
      exact .inl (mem_operations env hr hj)
    · rw [other d hd] at hw ⊢
      exact h.sent d w j hj hw hu
  · intro d j m' w hop hw
    by_cases hd : d = c
    · subst hd
      rw [here] at hop ⊢
      cases hr.symm.trans (write?_operations env hop (w := w) hw)
      exact ⟨rfl, unknown j⟩
    · rw [other d hd] at hop ⊢
      exact h.planned d j m' w hop hw
  · intro d j
    refine (h.queued d j).imp_right ?_
    rintro ⟨m', hq', hm'⟩
    refine ⟨m', hq', ?_⟩
    by_cases hd : d = c
    · subst hd
      simp [empty j] at hq'
    · refine ⟨by rw [other d hd]; exact hm'.first, fun w hw => by rw [other d hd]; exact hm'.write w hw,
        fun hc w hw hpw => hm'.commits hc w ?_ hpw⟩
      rwa [old w] at hw
      rintro rfl
      exact hd (hw.symm.trans new)
  · intro d
    by_cases hd : d = c
    · subst hd
      rw [here]
      exact good_operations env _ r
    · rw [other d hd]
      exact h.good d

/-- A child's connections are closed. -/
theorem close (h : Discipline env s) (c : ChildId) : Discipline env (s.close c) := by
  have here : (s.close c).child c = freshChild := Function.update_self ..
  have other : ∀ d, d ≠ c → (s.close c).child d = s.child d := fun d hd => Function.update_of_ne hd ..
  have empty : ∀ i, (s.close c).queue c i = [] := fun i => by simp [System.close]
  have queue : ∀ d i, d ≠ c → (s.close c).queue d i = s.queue d i := fun d i hd => by
    simp [System.close, hd]
  have unknown : ∀ i w, (s.close c).fate i w = .unknown →
      s.fate i w = .unknown ∧ (s.owner w = c → s.next ≤ w) := by
    intro i w hw
    simp only [System.close] at hw
    grind
  have pending : ∀ i w, (s.close c).fate i w = .pending → s.fate i w = .pending := by
    intro i w hw
    simp only [System.close] at hw
    grind
  have all : ∀ w, SettledAll env s.fate w → SettledAll env (s.close c).fate w :=
    fun w hw i hi hi' => hw i hi (unknown i w hi').1
  have foreign : ∀ i w, s.owner w ≠ c → (s.close c).fate i w = s.fate i w := fun i w hw => by
    simp [System.close, hw]
  constructor
  · intro i w hw
    have : ¬ w < s.next := Nat.not_lt.mpr hw
    simp [System.close, this, h.fresh i w hw]
  · intro d w hw
    by_cases hd : d = c
    · subst hd
      simp [here, freshChild] at hw
    · exact h.owner d w (by rwa [other d hd] at hw)
  · intro w hw hc
    by_cases hd : s.owner w = c
    · exact fun i _ hu => absurd ((unknown i w hu).2 hd) (Nat.not_le.mpr hw)
    · refine all w (h.settled w hw ?_)
      rwa [show (s.close c).owner w = s.owner w from rfl, other _ hd] at hc
  · intro d w j hj hw hu
    by_cases hd : d = c
    · subst hd
      simp [here, freshChild] at hw
    · rw [other d hd] at hw ⊢
      rw [queue d j hd]
      exact h.sent d w j hj hw (unknown j w hu).1
  · intro d j m' w hop hw
    by_cases hd : d = c
    · subst hd
      simp [here, freshChild] at hop
    · rw [other d hd] at hop ⊢
      obtain ⟨hwr, hu⟩ := h.planned d j m' w hop hw
      exact ⟨hwr, (foreign j w (by rwa [(h.owner d w hwr).1])).trans hu⟩
  · intro d j
    by_cases hd : d = c
    · subst hd
      exact .inl (empty j)
    · rw [queue d j hd]
      refine (h.queued d j).imp_right ?_
      rintro ⟨m', hq', hm'⟩
      refine ⟨m', hq', ?_⟩
      refine ⟨by rw [other d hd]; exact hm'.first, fun w hw => ?_, fun hc w hw hpw => ?_⟩
      · rw [other d hd]
        obtain ⟨⟨hwr, hu⟩, hrest⟩ := hm'.write w hw
        exact ⟨⟨hwr, (foreign j w (by rwa [(h.owner d w hwr).1])).trans hu⟩, hrest⟩
      · exact all w (hm'.commits hc w hw (pending j w hpw))
  · intro d
    by_cases hd : d = c
    · subst hd
      rw [here]
      trivial
    · rw [other d hd]
      exact h.good d

/-- A child takes an operation off its list that no message goes out with. -/
theorem drop (h : Discipline env s) {op : Op} {rest : List Op} {child : ChildState}
    (hp : (s.child c).pending = op :: rest) (hop : ∀ i m, op ≠ .send i m)
    (hsettle : ∀ i, op = .settle i → s.queue c i = [])
    (hwriting : child.writing = (s.child c).writing) (hrest : child.pending = rest) :
    Discipline env (s.setChild c child) := by
  have none : op.write? = none := by
    cases op with
    | send i m => exact (hop i m rfl).elim
    | _ => rfl
  have hgood : Good (op :: rest) := hp ▸ h.good c
  refine h.setChild hwriting ?_ ?_ ?_ ?_ (hrest ▸ hgood.2.2.2)
  · intro op' hop' _
    simp [hp, hrest ▸ hop']
  · intro op' hop' hw
    rw [hp, List.mem_cons] at hop'
    rcases hop' with rfl | hop'
    · exact (hw none).elim
    · rwa [hrest]
  · intro i hq hfirst
    rw [hp, first_cons] at hfirst
    rw [hrest]
    exact (hfirst.resolve_left fun h => hq (hsettle i h)).2
  · intro i hq hwaits
    rw [hp, waits_cons] at hwaits
    rw [hrest]
    exact (hwaits.resolve_left fun h => hq (hsettle i h)).2

/-- The body of the loop of `start_internal_transaction`. -/
theorem startInternal (h : Discipline env s) {rest : List Op}
    (hp : (s.child c).pending = .startInternal i :: rest) :
    Discipline env (s.setChild c { s.child c with
      pending := .send i .begin :: .settle i :: .status i :: .mark i true :: rest }) := by
  have hgood : Good (.startInternal i :: rest) := hp ▸ h.good c
  refine h.setChild rfl ?_ ?_ ?_ ?_ ?_
  · simp [hp, Op.write?, Msg.write?]
    grind
  · simp [hp, Op.write?]
    grind
  · intro j _ hfirst
    simp only [hp, first_cons, Op.sendsTo, decide_eq_false_iff_not] at hfirst ⊢
    simp at hfirst ⊢
    exact ⟨hfirst.1, .inr hfirst.2⟩
  · intro j _ hwaits
    simp only [hp, waits_cons, Op.sendsTo, Op.ends, Msg.commits, decide_eq_false_iff_not] at hwaits ⊢
    simp at hwaits ⊢
    exact ⟨hwaits.1, .inr hwaits.2⟩
  · simpa [Good, first_cons, Op.ends, Msg.commits, Msg.write?] using hgood.2.2.2

/-- The body of the loop of `end_internal_transaction`. -/
theorem endInternal (h : Discipline env s) {rest : List Op}
    (hp : (s.child c).pending = .endInternal i :: rest) :
    Discipline env (s.setChild c { s.child c with
      pending := .send i .commit :: .settle i :: .mark i false :: rest }) := by
  have hgood : Good (.endInternal i :: rest) := hp ▸ h.good c
  have none : NoWrites rest := hgood.2.2.1 rfl
  refine h.setChild rfl ?_ ?_ ?_ ?_ ?_
  · simp [hp, Op.write?, Msg.write?]
    grind
  · simp [hp, Op.write?]
    grind
  · intro j _ hfirst
    simp only [hp, first_cons, Op.sendsTo, decide_eq_false_iff_not] at hfirst ⊢
    simp at hfirst ⊢
    exact ⟨hfirst.1, .inr hfirst.2⟩
  · intro j _ hwaits
    simp [hp, waits_cons, Op.ends] at hwaits
  · refine ⟨?_, ?_, fun _ => ?_, ?_⟩
    · simp [first_cons]
    · simp [Msg.write?]
    · simpa [NoWrites, Op.write?] using none
    · simpa [Good, Op.ends] using hgood.2.2.2

/-- Transactions end on a node. -/
theorem finish (h : Discipline env s) (c : ChildId) (i : NodeId) {fate : Fate}
    (hfate : fate = .committed ∨ fate = .aborted) : Discipline env (s.finish c i fate) := by
  refine h.setFate (fun w => ?_) fun w => ?_
  · grind
  · grind

/-- A connection reports an error. -/
theorem fail (h : Discipline env s) (c : ChildId) (i : NodeId) (m : Msg) :
    Discipline env (s.fail c i m) := by
  obtain ⟨server, heq | heq, -⟩ := fail_cases s c i m
  · rw [heq]
    exact h.setServer server
  · rw [heq]
    exact (h.finish c i (.inr rfl)).setServer server

/-- A message other than a write succeeds. -/
theorem succeed (h : Discipline env s) {t : System} (ht : s.succeed c i m = some t) :
    Discipline env t := by
  obtain ⟨server, rfl | ⟨f, hf, rfl⟩, -⟩ := succeed_cases ht
  · exact h.setServer server
  · refine (h.finish c i ?_).setServer server
    exact hf.symm.imp And.left id

/-- The order in which writes are executed does not matter here. -/
theorem setOrder (h : Discipline env s) (order : NodeId → List WriteId) :
    Discipline env { s with order } where
  fresh := h.fresh
  owner := h.owner
  settled := h.settled
  sent := h.sent
  planned := h.planned
  queued c i := (h.queued c i).imp id fun ⟨m, hq, hm⟩ =>
    ⟨m, hq, hm.first, hm.write, hm.commits⟩
  good := h.good

/-- A node gets to a message. -/
theorem process (h : Discipline env s) {o : Outcome} {t : System}
    (ht : s.process env c i o = some t) : Discipline env t := by
  unfold System.process at ht
  split at ht
  · simp at ht
  next m rest hq =>
  obtain rfl := (h.waiting hq).1
  extract_lets u at ht
  split at ht
  · -- a write is executed
    next w hw =>
    have executed : Discipline env (u.execute i w) :=
      (h.handled hq hw (f := .pending) (by decide)).setOrder _
    unfold System.writes at ht
    extract_lets server v at ht
    split at ht
    · simp at ht
    · split at ht
      · rw [← Option.some.inj ht]
        exact executed.finish c i (.inl rfl)
      · rw [← Option.some.inj ht]
        exact executed
  · next w hw =>
    rw [← Option.some.inj ht]
    exact (h.handled hq hw (f := .rejected) (by decide)).fail c i m
  · next w hw =>
    rw [← Option.some.inj ht]
    exact h.handled hq hw (by decide)
  · next hw => exact (h.dequeue hq hw).succeed ht
  · next hw =>
    rw [← Option.some.inj ht]
    exact (h.dequeue hq hw).fail c i m
  · next hw =>
    rw [← Option.some.inj ht]
    exact h.dequeue hq hw

/-- A node aborts a transaction. -/
theorem abort (h : Discipline env s) (c : ChildId) (i : NodeId) : Discipline env (s.abort c i) := by
  unfold System.abort
  extract_lets server t
  have aborted : Discipline env t := h.finish c i (.inr rfl)
  split
  · exact aborted.setServer _
  · exact aborted

end Discipline

/-! ## Every step -/

theorem Discipline.run (h : Discipline env s) {t : System} (ht : s.run c = some t) :
    Discipline env t := by
  unfold System.run at ht
  extract_lets child go at ht
  split at ht
  · simp at ht
  next op rest hp =>
  have hp : (s.child c).pending = op :: rest := hp
  cases op with
  | send i m =>
    cases ht
    exact h.send hp
  | settle i =>
    dsimp only at ht
    split at ht
    · next hq =>
      cases ht
      exact h.drop hp (by simp) (by grind) rfl rfl
    · simp at ht
  | startInternal i =>
    dsimp only at ht
    split at ht
    · cases ht
      exact h.startInternal hp
    · cases ht
      exact h.drop hp (by simp) (by simp) rfl rfl
  | endInternal i =>
    dsimp only at ht
    split at ht
    · cases ht
      exact h.endInternal hp
    · cases ht
      exact h.drop hp (by simp) (by simp) rfl rfl
  | _ =>
    cases ht
    exact h.drop hp (by simp) (by simp) rfl rfl

theorem Discipline.step (h : Discipline env s) {e : Event} {t : System}
    (ht : s.step env e = some t) : Discipline env t := by
  cases e with
  | request c r =>
    have ht : s.request env c r = some t := ht
    unfold System.request at ht
    extract_lets child at ht
    split at ht
    · simp at ht
    next hidle =>
    have hp : (s.child c).pending = [] := by
      by_contra hp
      exact hidle (.inl hp)
    split at ht
    · next hr =>
      cases ht
      exact h.request hp hr
    · next w hr =>
      split at ht
      · next hw =>
        cases ht
        subst hw
        exact h.request_write hp hr
      · simp at ht
  | run c => exact h.run ht
  | process c i o => exact h.process ht
  | abort c i =>
    cases ht
    exact h.abort c i
  | close c =>
    cases ht
    exact h.close c

end

end PgPool.Serial
