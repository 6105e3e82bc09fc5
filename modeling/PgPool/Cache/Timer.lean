import PgPool.Cache.Discard
import PgPool.Lib.Transition

/-!
# The expiry of idle entries

One alarm stands for all the entries that are idle: it is set with the first of them, and anew by
`pool_backend_timer`.  When it fires `pool_backend_timer_handler` sets a flag, and no alarm is pending from
then on.  The times of the calls do not decrease.
-/

namespace PgPool.Cache

/-- The pool, the time of the last call, and the time at which the alarm fires. -/
structure Timed where
  pool : ConnectionPool
  now : Nat
  alarm : Option Nat

/-- The calls. -/
inductive TimerCall where
  | get (user database : List UInt8) (protoMajor : Nat) (checkSocket : Bool) (broken : Nat → Bool)
  | idle (backend : Nat)
  | expire

namespace Timed

variable (env : Env) (s : Timed)

/-- The alarm that is pending when the next call is made. -/
def pending (t : Nat) : Option Nat := s.alarm.filter fun a => t < a

/-- The alarm after a call of `alarm`, if there is one. -/
def rearm (t : Nat) (seconds : Option Nat) : Option Nat := (seconds.map (t + ·)).or (s.pending t)

/-- `pool_get_cp`, `pool_connection_pool_timer` or `pool_backend_timer`. -/
def call (t : Nat) : TimerCall → Option Timed
  | .get user database protoMajor checkSocket broken =>
      (s.pool.poolGetCp env user database protoMajor checkSocket broken).map fun result =>
        ⟨result.2, t, s.pending t⟩
  | .idle backend =>
      if backend < env.maxPool then
        (s.pool.poolConnectionPoolTimer env backend t).map fun result => ⟨result.1, t, s.rearm t result.2⟩
      else none
  | .expire => (s.pool.poolBackendTimer env t).map fun result => ⟨result.1, t, s.rearm t result.2⟩

/-- A call at a time that is not before the last. -/
def step (e : Nat × TimerCall) : Option Timed := if e.1 < s.now then none else s.call env e.1 e.2

/-- The close time of an idle entry. -/
def Idle (i closetime : Nat) : Prop :=
  i < env.maxPool ∧ (s.pool.entries i).idle env = true ∧ (s.pool.entries i).closetime env = closetime

/-- If an entry is idle, an alarm is pending that fires no later than the first of the idle entries
expires, or one second from now. -/
def Armed : Prop :=
  ∀ i c, s.Idle env i c → ∃ a, s.alarm = some a ∧ s.now < a ∧
    ∀ j d, s.Idle env j d → a ≤ max (d + env.connectionLifeTime) (s.now + 1)

/-- The entry that a call is about. -/
def own : TimerCall → Option Nat
  | .get user database protoMajor _ _ => s.pool.findEntry env user database protoMajor
  | .idle backend => some backend
  | .expire => none

/-- The condition on a call: the alarm has not fired without `pool_backend_timer` having been called,
unless no other entry is idle; not all the close times that `pool_backend_timer` finds and keeps are
beyond `TMINTMAX`; and `pool_get_cp` does not leave the slot of the master behind. -/
def OnTime (s : Timed) : Nat × TimerCall → Prop
  | (t, .expire) =>
      (∃ i c, s.Idle env i c ∧ t < c + env.connectionLifeTime) →
        ∃ i c, s.Idle env i c ∧ t < c + env.connectionLifeTime ∧ c < tmintmax
  | (t, .get user database protoMajor checkSocket broken) =>
      (∀ i c, s.Idle env i c → s.own env (.get user database protoMajor checkSocket broken) ≠ some i →
        s.pending t ≠ none) ∧
        ∀ i, s.pool.findEntry env user database protoMajor = some i →
          (checkSocket && (s.pool.entries i).sockBroken env broken) = true →
            Entry.spared env.masterNodeId = false
  | (t, .idle backend) => ∀ i c, s.Idle env i c → backend ≠ i → s.pending t ≠ none

end Timed

/-! ## What the calls do to idle entries -/

variable {env : Env} {s t : ConnectionPool} {i : Nat}

namespace Entry

variable {p q : Entry}

theorem idle_congr (h : p.slots env.masterNodeId = q.slots env.masterNodeId) : p.idle env = q.idle env := by
  unfold idle pooled closetime sp masterConnection
  rw [h]

theorem not_idle_of_none (h : p.slots env.masterNodeId = none) : p.idle env = false := by
  unfold idle pooled sp masterConnection
  rw [h]
  rfl

theorem closetime_setClosetime {x : Slot} (h : p.slots env.masterNodeId = some x) (time : Nat) :
    (p.setClosetime env time).closetime env = time := by
  unfold closetime masterConnection setClosetime
  simp [h]

theorem not_idle_setClosetime (p : Entry) : (p.setClosetime env 0).idle env = false := by
  cases h : p.slots env.masterNodeId with
  | none =>
    refine not_idle_of_none ?_
    unfold setClosetime
    simp [h]
  | some x =>
    unfold idle
    rw [closetime_setClosetime h, bne_self_eq_false, Bool.and_false]

end Entry

namespace ConnectionPool

theorem not_idle_take : ((s.take env i).entries i).idle env = false := by
  rw [take, entries_setEntry_self]
  refine (Entry.idle_congr ?_).trans (Entry.not_idle_setClosetime (s.entries i))
  rfl

/-- `pool_get_cp` makes no entry idle, and that which it finds is not idle then. -/
theorem idle_poolGetCp {user database : List UInt8} {protoMajor : Nat} {checkSocket : Bool}
    {broken : Nat → Bool}
    {result : Option Nat × ConnectionPool}
    (hget : s.poolGetCp env user database protoMajor checkSocket broken = some result) {j : Nat}
    (hidle : (result.2.entries j).idle env = true) :
    s.findEntry env user database protoMajor ≠ some j ∧ result.2.entries j = s.entries j := by
  rcases poolGetCp_cases env s user database protoMajor checkSocket broken with
    ⟨hfind, h⟩ | ⟨i, hfind, ⟨-, h⟩ | ⟨-, h⟩⟩
  · rw [h] at hget
    cases hget
    exact ⟨by rw [hfind]; nofun, rfl⟩
  · rw [h] at hget
    cases hget
    have hne : j ≠ i := by
      rintro rfl
      rw [not_idle_take] at hidle
      cases hidle
    exact ⟨by rw [hfind]; simpa using hne.symm, entries_setEntry_ne _ s.heap hne⟩
  · obtain ⟨u, hu, hothers, hentry, -⟩ := (s.take env i).discardBroken_eq env i
    rw [h, hu] at hget
    cases hget
    have hne : j ≠ i := by
      rintro rfl
      rw [hentry] at hidle
      by_cases hspared : Entry.spared env.masterNodeId = true
      · have hsame : ((s.take env j).entries j).partlyCleared.idle env =
            ((s.take env j).entries j).idle env :=
          Entry.idle_congr (if_pos hspared)
        rw [hsame, not_idle_take] at hidle
        cases hidle
      · rw [Entry.not_idle_of_none (if_neg hspared)] at hidle
        cases hidle
    exact ⟨by rw [hfind]; simpa using hne.symm, (hothers j hne).trans (entries_setEntry_ne _ _ hne)⟩

/-- `pool_connection_pool_timer`: it calls `alarm` if no other entry is idle. -/
theorem poolConnectionPoolTimer_eq {backend now : Nat} {result : ConnectionPool × Option Nat}
    (hlife : 0 < env.connectionLifeTime) (h : s.poolConnectionPoolTimer env backend now = some result) :
    (result.1.entries backend).closetime env = now ∧ (∀ j, j ≠ backend → result.1.entries j = s.entries j) ∧
      ((∃ j, j < env.maxPool ∧ j ≠ backend ∧ (s.entries j).idle env = true) ∧ result.2 = none ∨
        (∀ j, j < env.maxPool → j ≠ backend → (s.entries j).idle env = false) ∧
          result.2 = some env.connectionLifeTime) := by
  unfold poolConnectionPoolTimer at h
  split at h
  · cases h
  · rename_i hsome
    obtain ⟨x, hx⟩ := Option.ne_none_iff_exists'.mp (by simpa using hsome)
    simp only [Option.some.injEq] at h
    subst h
    have hothers : ∀ j, j ≠ backend →
        (s.setEntry backend ((s.entries backend).setClosetime env now) s.heap).entries j = s.entries j :=
      fun j hj => entries_setEntry_ne _ _ hj
    refine ⟨?_, hothers, ?_⟩
    · rw [entries_setEntry_self]
      exact Entry.closetime_setClosetime hx now
    · rw [if_neg (Nat.ne_of_gt hlife)]
      by_cases hother : ∃ j, j < env.maxPool ∧ j ≠ backend ∧ (s.entries j).idle env = true
      · refine Or.inl ⟨hother, if_pos ?_⟩
        obtain ⟨j, hj, hne, hidle⟩ := hother
        refine List.any_eq_true.mpr ⟨j, List.mem_range.mpr hj, ?_⟩
        rw [hothers j hne, hidle, bne_iff_ne.mpr hne]
        rfl
      · have hnone : ∀ j, j < env.maxPool → j ≠ backend → (s.entries j).idle env = false :=
          fun j hj hne => Bool.eq_false_iff.mpr fun hidle => hother ⟨j, hj, hne, hidle⟩
        refine Or.inr ⟨hnone, if_neg ?_⟩
        rw [Bool.not_eq_true, List.any_eq_false]
        intro j hj
        by_cases hne : j = backend
        · simp [hne]
        · rw [hothers j hne, hnone j (List.mem_range.mp hj) hne, Bool.and_false]
          exact Bool.false_ne_true

/-- The entry is idle, and stays so. -/
def remains (env : Env) (s : ConnectionPool) (now i : Nat) : Bool :=
  (s.entries i).idle env && !s.expired env now i

/-- A turn changes the nearest close time by an entry that remains. -/
theorem timerTurn_cases {now nearest : Nat} {result : ConnectionPool × Nat}
    (h : timerTurn env now (s, nearest) i = some result) :
    (∀ j, j ≠ i → result.1.entries j = s.entries j) ∧
      result.2 = if s.remains env now i then min nearest ((s.entries i).closetime env) else nearest := by
  cases hexpired : s.expired env now i with
  | true =>
    rw [Discarding.timerTurn_expired hexpired] at h
    obtain ⟨t, ht, rfl⟩ := Option.map_eq_some_iff.mp h
    exact ⟨(closes_of_close ht).others, by simp [remains, hexpired]⟩
  | false =>
    unfold timerTurn at h
    cases hidle : (s.entries i).idle env with
    | false =>
      simp only [hidle, Bool.not_false, if_true, Option.some.injEq] at h
      subst h
      exact ⟨fun _ _ => rfl, by simp [remains, hidle]⟩
    | true =>
      simp only [hidle, hexpired, Bool.not_true, Bool.false_eq_true, if_false, Option.some.injEq] at h
      subst h
      refine ⟨fun _ _ => rfl, ?_⟩
      simp only [remains, hidle, hexpired, Bool.not_false, Bool.and_self, if_true]
      split <;> omega

/-- Where the loop of `pool_backend_timer` stands when some entries have been passed. -/
structure Passed (env : Env) (s : ConnectionPool) (now nearest : Nat) (done : List Nat)
    (u : ConnectionPool × Nat) : Prop where
  others : ∀ i, i ∉ done → u.1.entries i = s.entries i
  nearest : u.2 = ((done.filter (s.remains env now)).map fun i =>
    (s.entries i).closetime env).foldl min nearest

theorem Passed.turn {now nearest : Nat} {done : List Nat} {u v : ConnectionPool × Nat}
    (h : Passed env s now nearest done u) (hi : i ∉ done) (hv : timerTurn env now u i = some v) :
    Passed env s now nearest (done ++ [i]) v := by
  have hhere := h.others i hi
  have hremains : u.1.remains env now i = s.remains env now i := by
    unfold remains
    rw [hhere, Discarding.expired_congr hhere]
  obtain ⟨hothers, hnearer⟩ := timerTurn_cases hv
  refine ⟨fun j hj => ?_, ?_⟩
  · rw [List.mem_append, List.mem_singleton, not_or] at hj
    rw [hothers j hj.2, h.others j hj.1]
  · rw [hnearer, hremains, hhere, h.nearest, List.filter_append, List.map_append, List.foldl_append,
      List.filter_singleton]
    cases s.remains env now i with
    | true => rfl
    | false => rfl

/-- The nearest close time after the loop of `pool_backend_timer`. -/
theorem nearest_foldlM {now : Nat} {indices : List Nat} (hnd : indices.Nodup) {nearest : Nat}
    {result : ConnectionPool × Nat}
    (h : indices.foldlM (timerTurn env now) (s, nearest) = some result) :
    result.2 = ((indices.filter (s.remains env now)).map fun i =>
      (s.entries i).closetime env).foldl min nearest := by
  have init : Passed env s now nearest [] (s, nearest) := ⟨fun _ _ => rfl, rfl⟩
  refine (Fold.invariant init (fun done i u v hpre hu hv => ?_) h).nearest
  exact hu.turn (Fold.not_mem_done hnd hpre) hv

/-- `pool_backend_timer`: the entries that stay idle, and the argument of `alarm`. -/
theorem poolBackendTimer_eq {now : Nat} {result : ConnectionPool × Option Nat}
    (h : s.poolBackendTimer env now = some result) :
    (∀ i, i < env.maxPool → (result.1.entries i).idle env = true →
      s.remains env now i = true ∧ result.1.entries i = s.entries i) ∧
      ((∃ i, i < env.maxPool ∧ s.remains env now i = true ∧ (s.entries i).closetime env < tmintmax) →
        ∃ i, i < env.maxPool ∧ s.remains env now i = true ∧
          result.2 = some (alarmFor env now ((s.entries i).closetime env)) ∧
          ∀ j, j < env.maxPool → s.remains env now j = true →
            (s.entries i).closetime env ≤ (s.entries j).closetime env) := by
  obtain ⟨⟨t, nearest⟩, hloop, rfl⟩ := Option.map_eq_some_iff.mp h
  have hnearest := nearest_foldlM (List.nodup_range (n := env.maxPool)) hloop
  refine ⟨fun i hi hidle => ?_, ?_⟩
  · obtain ⟨-, hresult⟩ := foldlM_closes (s := s) Prod.fst (timerTurn env now)
      (fun _ _ => Discarding.timerTurn_skip) (fun _ _ => Discarding.timerTurn_closes)
      (List.nodup_range (n := env.maxPool)) (s, tmintmax) rfl
    obtain ⟨hkeep, hclear, -⟩ := hresult _ hloop
    have hi := List.mem_range.mpr hi
    cases hexpired : s.expired env now i with
    | true =>
      rw [Entry.not_idle_of_none (hclear i ⟨hi, hexpired⟩ _)] at hidle
      cases hidle
    | false =>
      have hsame : t.entries i = s.entries i := hkeep i (by rw [hexpired]; exact fun h => nomatch h.2)
      have hstill : (s.entries i).idle env = true := hsame ▸ hidle
      exact ⟨by simp [remains, hstill, hexpired], hsame⟩
  · rintro ⟨i, hi, hremains, hsmall⟩
    have hmin : (tmintmax :: ((List.range env.maxPool).filter (s.remains env now)).map
        fun i => (s.entries i).closetime env).min? = some nearest := by
      rw [List.min?_cons', ← hnearest]
    obtain ⟨hmem, hall⟩ := List.min?_eq_some_iff.mp hmin
    have hle : ∀ j, j < env.maxPool → s.remains env now j = true →
        nearest ≤ (s.entries j).closetime env := by
      intro j hj hj'
      refine hall _ (List.mem_cons_of_mem _ (List.mem_map.mpr ⟨j, ?_, rfl⟩))
      exact List.mem_filter.mpr ⟨List.mem_range.mpr hj, hj'⟩
    have hlt : nearest < tmintmax := Nat.lt_of_le_of_lt (hle i hi hremains) hsmall
    rcases List.mem_cons.mp hmem with heq | hmem
    · exact absurd heq (Nat.ne_of_lt hlt)
    · obtain ⟨j, hj, rfl⟩ := List.mem_map.mp hmem
      obtain ⟨hj, hjr⟩ := List.mem_filter.mp hj
      exact ⟨j, List.mem_range.mp hj, hjr, if_pos (Nat.ne_of_lt hlt), hle⟩

end ConnectionPool

/-! ## Runs -/

namespace Timed

/-- What holds between two calls: no entry has become idle later than now. -/
structure Kept (env : Env) (s : Timed) : Prop where
  armed : s.Armed env
  closed : ∀ i c, s.Idle env i c → c ≤ s.now

variable {s u : Timed} {time : Nat}

theorem pending_eq_some {a : Nat} : s.pending time = some a ↔ s.alarm = some a ∧ time < a := by
  rw [pending, Option.filter_eq_some_iff, decide_eq_true_eq]

/-- An alarm that is still pending is early enough for every entry that was idle before. -/
theorem Kept.pending (h : Kept env s) (htime : s.now ≤ time) {i c : Nat} (hidle : s.Idle env i c)
    (hpending : s.pending time ≠ none) :
    ∃ a, s.pending time = some a ∧ time < a ∧
      ∀ j d, s.Idle env j d → a ≤ max (d + env.connectionLifeTime) (time + 1) := by
  obtain ⟨a, ha⟩ := Option.ne_none_iff_exists'.mp hpending
  obtain ⟨halarm, hlt⟩ := pending_eq_some.mp ha
  obtain ⟨b, hb, -, hbound⟩ := h.armed i c hidle
  rw [halarm, Option.some.injEq] at hb
  refine ⟨a, ha, hlt, fun j d hj => ?_⟩
  have hle := hbound j d hj
  omega

theorem Kept.get (h : Kept env s) (htime : s.now ≤ time) {user database : List UInt8} {protoMajor : Nat}
    {checkSocket : Bool} {broken : Nat → Bool} {result : Option Nat × ConnectionPool}
    (hget : s.pool.poolGetCp env user database protoMajor checkSocket broken = some result)
    (ok : s.OnTime env (time, .get user database protoMajor checkSocket broken)) :
    Kept env ⟨result.2, time, s.pending time⟩ := by
  have hold : ∀ i c, Idle env ⟨result.2, time, s.pending time⟩ i c →
      s.Idle env i c ∧ s.pool.findEntry env user database protoMajor ≠ some i := by
    rintro i c ⟨hi, hidle, hclose⟩
    obtain ⟨hne, hsame⟩ := ConnectionPool.idle_poolGetCp hget hidle
    simp only [hsame] at hidle hclose
    exact ⟨⟨hi, hidle, hclose⟩, hne⟩
  refine ⟨fun i c hic => ?_, fun i c hic => ?_⟩
  · obtain ⟨hidle, hne⟩ := hold i c hic
    obtain ⟨a, ha, hlt, hbound⟩ := h.pending htime hidle (ok.1 i c hidle hne)
    exact ⟨a, ha, hlt, fun j d hjd => hbound j d (hold j d hjd).1⟩
  · exact Nat.le_trans (h.closed i c (hold i c hic).1) htime

theorem Kept.idle (h : Kept env s) (hlife : 0 < env.connectionLifeTime) (htime : s.now ≤ time)
    {backend : Nat}
    {result : ConnectionPool × Option Nat}
    (hidle : s.pool.poolConnectionPoolTimer env backend time = some result)
    (ok : s.OnTime env (time, .idle backend)) : Kept env ⟨result.1, time, s.rearm time result.2⟩ := by
  obtain ⟨hclose, hothers, hcases⟩ := ConnectionPool.poolConnectionPoolTimer_eq hlife hidle
  have hold : ∀ i c, Idle env ⟨result.1, time, s.rearm time result.2⟩ i c →
      i = backend ∧ c = time ∨ i ≠ backend ∧ s.Idle env i c := by
    rintro i c ⟨hi, hidle, hc⟩
    by_cases hib : i = backend
    · subst hib
      exact Or.inl ⟨rfl, hc.symm.trans hclose⟩
    · simp only [hothers i hib] at hidle hc
      exact Or.inr ⟨hib, hi, hidle, hc⟩
  refine ⟨fun i c hic => ?_, fun i c hic => ?_⟩
  · rcases hcases with ⟨⟨j, hj, hne, hother⟩, hnone⟩ | ⟨hnone, hsome⟩
    · have hjd : s.Idle env j _ := ⟨hj, hother, rfl⟩
      obtain ⟨a, ha, hlt, hbound⟩ := h.pending htime hjd (ok j _ hjd hne.symm)
      refine ⟨a, by rw [hnone]; exact ha, hlt, fun k d hkd => ?_⟩
      rcases hold k d hkd with ⟨-, rfl⟩ | ⟨-, hk⟩
      · -- the entry that becomes idle expires after the one that has been idle
        have hle := hbound j _ hjd
        have hbefore := h.closed j _ hjd
        omega
      · exact hbound k d hk
    · refine ⟨time + env.connectionLifeTime, by rw [hsome]; rfl, Nat.lt_add_of_pos_right hlife,
        fun k d hkd => ?_⟩
      rcases hold k d hkd with ⟨-, rfl⟩ | ⟨hk, hkm, hki, -⟩
      · exact Nat.le_max_left _ _
      · rw [hnone k hkm hk] at hki
        cases hki
  · rcases hold i c hic with ⟨-, rfl⟩ | ⟨-, hi⟩
    · exact Nat.le_refl _
    · exact Nat.le_trans (h.closed i c hi) htime

theorem remains_iff {i : Nat} : s.pool.remains env time i = true ↔
    (s.pool.entries i).idle env = true ∧
      time < (s.pool.entries i).closetime env + env.connectionLifeTime := by
  unfold ConnectionPool.remains ConnectionPool.expired
  cases (s.pool.entries i).idle env <;> simp

/-- An entry that is idle after `pool_backend_timer` has been before, and has not expired. -/
theorem idle_expire {result : ConnectionPool × Option Nat} {alarm : Option Nat}
    (hexpire : s.pool.poolBackendTimer env time = some result) {i c : Nat}
    (hidle : Idle env ⟨result.1, time, alarm⟩ i c) :
    s.Idle env i c ∧ s.pool.remains env time i = true ∧ time < c + env.connectionLifeTime := by
  obtain ⟨hi, hidle, hc⟩ := hidle
  obtain ⟨hremains, hsame⟩ := (ConnectionPool.poolBackendTimer_eq hexpire).1 i hi hidle
  simp only [hsame] at hidle hc
  have hlt := (remains_iff.mp hremains).2
  rw [hc] at hlt
  exact ⟨⟨hi, hidle, hc⟩, hremains, hlt⟩

/-- The alarm that `pool_backend_timer` sets fires when the nearest entry expires. -/
theorem add_alarmFor {closetime : Nat} (hremains : time < closetime + env.connectionLifeTime) :
    time + ConnectionPool.alarmFor env time closetime = closetime + env.connectionLifeTime := by
  unfold ConnectionPool.alarmFor
  simp only
  split <;> omega

theorem Kept.expire (h : Kept env s) (htime : s.now ≤ time) {result : ConnectionPool × Option Nat}
    (hexpire : s.pool.poolBackendTimer env time = some result) (ok : s.OnTime env (time, .expire)) :
    Kept env ⟨result.1, time, s.rearm time result.2⟩ := by
  refine ⟨fun i c hic => ?_, fun i c hic => ?_⟩
  · obtain ⟨hidle, -, hlt⟩ := idle_expire hexpire hic
    obtain ⟨j, d, hjd, hjlt, hsmall⟩ := ok ⟨i, c, hidle, hlt⟩
    have hj : s.pool.remains env time j = true ∧ (s.pool.entries j).closetime env < tmintmax := by
      rw [remains_iff, hjd.2.2]
      exact ⟨⟨hjd.2.1, hjlt⟩, hsmall⟩
    obtain ⟨k, hk, hkr, halarm, hleast⟩ :=
      (ConnectionPool.poolBackendTimer_eq hexpire).2 ⟨j, hjd.1, hj.1, hj.2⟩
    obtain ⟨hkidle, hklt⟩ := remains_iff.mp hkr
    have hfires := add_alarmFor hklt
    refine ⟨(s.pool.entries k).closetime env + env.connectionLifeTime, ?_, hklt, fun m e hme => ?_⟩
    · rw [halarm, ← hfires]
      rfl
    · obtain ⟨hmidle, hmr, -⟩ := idle_expire hexpire hme
      have hle := hleast m hme.1 hmr
      rw [hmidle.2.2] at hle
      omega
  · exact Nat.le_trans (h.closed i c (idle_expire hexpire hic).1) htime

theorem Kept.step (h : Kept env s) (hlife : 0 < env.connectionLifeTime) {e : Nat × TimerCall}
    (ok : s.OnTime env e)
    (next : s.step env e = some u) : Kept env u := by
  obtain ⟨t, c⟩ := e
  unfold Timed.step at next
  split at next
  · cases next
  · rename_i hearly
    have htime := Nat.le_of_not_lt hearly
    cases c with
    | get user database protoMajor checkSocket broken =>
      obtain ⟨result, hget, rfl⟩ := Option.map_eq_some_iff.mp next
      exact h.get htime hget ok
    | idle backend =>
      simp only [call] at next
      split at next
      · obtain ⟨result, hidle, rfl⟩ := Option.map_eq_some_iff.mp next
        exact h.idle hlife htime hidle ok
      · cases next
    | expire =>
      obtain ⟨result, hexpire, rfl⟩ := Option.map_eq_some_iff.mp next
      exact h.expire htime hexpire ok

/-- As long as the calls are on time an alarm is pending for the idle entries, and
`pool_backend_timer` leaves none that has expired. -/
theorem run_armed (hlife : 0 < env.connectionLifeTime) {s₀ : Timed} (start : Kept env s₀)
    (run : Transition.Run (step env) (OnTime env) s₀ s) :
    s.Armed env ∧ ∀ t u, s.step env (t, .expire) = some u →
      ∀ i c, u.Idle env i c → t < c + env.connectionLifeTime := by
  have hkept : Kept env s := run.invariant (fun s e t h ok next => h.step hlife ok next) start
  refine ⟨hkept.armed, fun t u next i c hic => ?_⟩
  unfold Timed.step at next
  split at next
  · cases next
  · obtain ⟨result, hexpire, rfl⟩ := Option.map_eq_some_iff.mp next
    exact (idle_expire hexpire hic).2.2

/-- Two entries, a minute to live, and one node. -/
def minute : Env := ⟨2, 60, 1, fun _ => true, 0⟩

/-- Two entries with a slot each, in use. -/
def twoEntries : ConnectionPool where
  entries i := {
    slots := fun n =>
      if i < 2 ∧ n = 0 then
        some ⟨some (i, ⟨[], 3, 0, some [97 + i.toUInt8], some [97], none⟩), 10 + i, 0⟩
      else none
    counter := fun _ => 0 }
  heap := ⟨[], []⟩
  poolIndex := 0

theorem not_idle_twoEntries {now : Nat} {alarm : Option Nat} {i c : Nat} :
    ¬ Idle minute ⟨twoEntries, now, alarm⟩ i c := by
  rintro ⟨hi, hidle, -⟩
  have hin : i < 2 ∧ 0 = 0 := ⟨hi, rfl⟩
  unfold Entry.idle Entry.closetime Entry.masterConnection twoEntries at hidle
  simp [hin, minute] at hidle

theorem kept_twoEntries (now : Nat) : Kept minute ⟨twoEntries, now, none⟩ :=
  ⟨fun _ _ h => absurd h not_idle_twoEntries, fun _ _ h => absurd h not_idle_twoEntries⟩

theorem run_armed_idle :
    ∃ s, step minute ⟨twoEntries, 100, none⟩ (100, .idle 0) = some s ∧
      s.Armed minute ∧
      ∀ t u, s.step minute (t, .expire) = some u →
        ∀ i c, u.Idle minute i c → t < c + 60 :=
  ⟨_, rfl, @run_armed minute _ (by decide) _ (kept_twoEntries 100)
    (.step .refl (100, .idle 0) (fun _ _ h => absurd h not_idle_twoEntries) rfl)⟩

/-- A session that lasts until the alarm has fired: no alarm is set at its end.  From `TMINTMAX` on,
`pool_backend_timer` sets none for the entry that remains. -/
theorem not_armed :
    (∃ s, Transition.runAll (step minute) [(100, .idle 0), (200, .idle 1)]
      ⟨twoEntries, 100, none⟩ = some s ∧ ¬ s.Armed minute) ∧
    ∃ s, Transition.runAll (step minute)
      [(0x7fffffff, .idle 0), (0x7fffffff + 30, .idle 1), (0x7fffffff + 60, .expire)]
      ⟨twoEntries, 100, none⟩ = some s ∧ ¬ s.Armed minute := by
  refine ⟨⟨_, rfl, fun h => ?_⟩, ⟨_, rfl, fun h => ?_⟩⟩
  · obtain ⟨a, ha, -⟩ := h 1 200 ⟨by decide, by decide, rfl⟩
    cases ha
  · obtain ⟨a, ha, -⟩ := h 1 (0x7fffffff + 30) ⟨by decide, by decide, rfl⟩
    cases ha

end Timed

end PgPool.Cache
