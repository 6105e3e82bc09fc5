import PgPool.Auth.Packet

/-!
# Who is admitted

A client is admitted because the backends have accepted its own credentials, or because it has
presented those with which the pooled connection was made.  Two things can go wrong: the null byte
behind a password that fills the buffer, and an answer of a node other than the last that is neither a
refusal nor `AuthenticationOk`.
-/

namespace PgPool.Auth

/-! ## What is claimed of an admission -/

/-- A node asks for nothing: its request is `AuthenticationOk`. -/
def Login.Trusts (l : Login) (i : Nat) : Prop :=
  (l.request i).take 1 = [0x52] ∧
    ∃ word, ((l.request i).drop (l.headerLen - 4)).take 4 = word ∧ ntohl word = 0

/-- A node has accepted the credentials of a client. -/
def Login.Accepts (cfg : Config) (l : Login) (asked i : Nat) : Prop :=
  if asked = 0 then l.Trusts i
  else ∃ packet, l.credential cfg asked i = some packet ∧ l.exchange i (saltLen asked) packet = 0

/-- The packet of a client is the one that was saved. -/
def Login.Presents (l : Login) (conn : Conn) : Prop :=
  ∃ w b, l.packet = some (w, b) ∧ (b.length : Int) = conn.pwdSize ∧
    b = conn.password.take conn.pwdSize.toNat

/-- A pooled connection may be used: nobody asked for a password when it was made, or the client knows
the one that was saved, or that of the password file under the fresh salt. -/
def Login.Reauthorised (cfg : Config) (l : Login) (kind : Nat) (conn : Conn) : Prop :=
  kind = 0 ∨
    (if kind = 5 ∧ 1 < cfg.numBackends then (l.vouched cfg).isSome = true else l.Presents conn)

/-- Why a client was admitted. -/
def Justified (cfg : Config) : Admission → Prop
  | .auth l asked => ∀ i ∈ l.nodes cfg, l.Accepts cfg asked i
  | .reauth l pool conn => pool.slots l.master = some conn ∧ l.Reauthorised cfg pool.kind conn

/-! ## The condition -/

/-- `do_md5` gets to the packet of a client. -/
def Login.ReadsMd5 (cfg : Config) (l : Login) (reauth : Bool) : Prop :=
  if 1 < cfg.numBackends then
    ((l.username cfg).bind cfg.poolGetPasswd).isSome = true ∧
      (reauth = true ∨ l.uaMD5 = true ∨ cfg.rawMode = true)
  else reauth = true ∨ 4 ≤ (l.rest l.master).length

/-- No node before the master begins its request with a null byte. -/
def Login.Clean (cfg : Config) (l : Login) : Prop :=
  ∀ i ∈ (l.nodes cfg).takeWhile (· ≠ l.master), (l.request i).take 1 ≠ [0]

/-- Every node but the last accepts or refuses. -/
def Login.Decided (cfg : Config) (l : Login) (asked : Nat) : Prop :=
  ∀ i ∈ (l.nodes cfg).dropLast, ∀ packet, l.credential cfg asked i = some packet →
    l.exchange i (saltLen asked) packet ≤ 0

/-- The condition for a new connection. -/
def Login.Fresh (cfg : Config) (l : Login) : Prop :=
  l.Clean cfg ∧ ∀ asked, l.askedKind cfg = some asked →
    (asked = 5 → l.ReadsMd5 cfg false → Fits l) ∧ (asked ≠ 0 → l.Decided cfg asked)

/-- The clients that do not meet the defects of the code. -/
def Careful (cfg : Config) (c : Child) : Event → Prop
  | .login l =>
    match c.reused l with
    | some (pool, _) => pool.kind = 5 → l.ReadsMd5 cfg true → Fits l
    | none => l.connects = true → l.Fresh cfg
  | .discard _ => True

variable {cfg : Config} {l : Login} {asked i : Nat} {st : Statics}

/-! ## The requests -/

section

variable {w master : Nat} {stream : Nat → List UInt8} {is : List Nat} {expected last r : List UInt8}

theorem readSame_others (hmaster : master ∉ is) (h : readSame w master stream is expected last = some r) :
    (∀ i ∈ is, (stream i).take w = expected) ∧ (last = expected → r = expected) := by
  induction is generalizing last with
  | nil =>
    cases h
    exact ⟨nofun, id⟩
  | cons i is ih =>
    have hi : i ≠ master := fun hi => hmaster (hi ▸ List.mem_cons_self)
    unfold readSame at h
    split at h
    · cases h
    · split at h
      · cases h
      · rename_i heq
        have heq := not_not.mp heq
        obtain ⟨hall, hlast⟩ := ih (fun hm => hmaster (List.mem_cons_of_mem _ hm)) h
        refine ⟨?_, fun _ => hlast heq⟩
        intro j hj
        obtain rfl | hj := List.mem_cons.mp hj
        · exact heq
        · exact hall j hj

theorem readSame_master (hmaster : master ∉ is)
    (h : readSame w master stream (master :: is) expected last = some r) :
    ∀ i ∈ master :: is, (stream i).take w = r := by
  unfold readSame at h
  split at h
  · cases h
  · rw [if_pos rfl] at h
    obtain ⟨hall, hlast⟩ := readSame_others hmaster h
    have hr := hlast rfl
    intro i hi
    obtain rfl | hi := List.mem_cons.mp hi
    · exact hr.symm
    · rw [hall i hi, hr]

/-- The bytes of a node before the master are compared with zero bytes. -/
theorem readSame_before {pre : List Nat} (hpre : master ∉ pre)
    (h : readSame w master stream (pre ++ is) expected last = some r) :
    ∀ i ∈ pre, (stream i).take w = expected := by
  induction pre generalizing last with
  | nil => nofun
  | cons i pre ih =>
    have hi : i ≠ master := fun hi => hpre (hi ▸ List.mem_cons_self)
    rw [List.cons_append] at h
    unfold readSame at h
    split at h
    · cases h
    · split at h
      · cases h
      · rename_i heq
        intro j hj
        obtain rfl | hj := List.mem_cons.mp hj
        · exact not_not.mp heq
        · exact ih (fun hm => hpre (List.mem_cons_of_mem _ hm)) h j hj

end

/-- The master is the first of the nodes, and all send the same request. -/
theorem askedKind_spec (hmem : l.master ∈ l.nodes cfg) (hclean : l.Clean cfg)
    (h : l.askedKind cfg = some asked) :
    (∃ post, l.nodes cfg = l.master :: post) ∧
      ∀ i ∈ l.nodes cfg, (l.request i).take 1 = [0x52] ∧
        ∃ word, ((l.request i).drop (l.headerLen - 4)).take 4 = word ∧ ntohl word = asked := by
  have hnodup : (l.nodes cfg).Nodup := (List.nodup_range).filter _
  unfold Login.askedKind at h
  unfold Login.Clean at hclean
  obtain ⟨pre, post, hnodes, hpre⟩ := List.eq_append_cons_of_mem hmem
  rw [hnodes] at h hclean hnodup ⊢
  split at h
  · cases h
  · rename_i kind hkind
    have hnil : pre = [] := by
      by_contra hne
      obtain ⟨i, hi⟩ := List.exists_mem_of_ne_nil pre hne
      refine hclean i ?_ (readSame_before hpre hkind i hi)
      rw [List.takeWhile_append_of_pos (fun j hj => decide_eq_true (ne_of_mem_of_not_mem hj hpre))]
      exact List.mem_append_left _ hi
    subst hnil
    rw [List.nil_append] at h hkind hnodup ⊢
    have hpost := (List.nodup_cons.mp hnodup).1
    refine ⟨⟨post, rfl⟩, ?_⟩
    split at h
    · cases h
    · rename_i hR
      split at h
      · cases h
      · split at h
        · cases h
        · rename_i word hword
          split at h
          · cases h
          · cases h
            intro i hi
            exact ⟨(readSame_master hpost hkind i hi).trans (not_not.mp hR), word,
              readSame_master hpost hword i hi, rfl⟩

/-! ## The loops over the nodes -/

/-- The loops without the static variables. -/
def settled (cfg : Config) (l : Login) (asked : Nat) : List Nat → Int → (Nat → Conn) →
    Int × (Nat → Conn) :=
  eachNode fun i conns => (l.outcome cfg asked i, Function.update conns i
    (if l.outcome cfg asked i = 0 then l.saved cfg asked i (conns i) else conns i))

section

variable {τ : Type} {I R : τ → Prop} {act : Nat → Conn → τ → Int × Conn × τ} {is : List Nat} {k : Int}
  {conns : Nat → Conn} {s : τ}

theorem eachNode_others (h : Settles cfg l asked I R act) (hI : I s) (hR : R s) :
    ∃ s', eachNode (onNode act) is k (conns, s) =
      ((settled cfg l asked is k conns).1, (settled cfg l asked is k conns).2, s') ∧ I s' := by
  induction is generalizing k conns s with
  | nil => exact ⟨s, rfl, hI⟩
  | cons i is ih =>
    obtain ⟨s', hact, hI', hR'⟩ := h i (conns i) s hI (.inr hR)
    unfold settled eachNode onNode
    simp only [hact]
    by_cases hneg : l.outcome cfg asked i < 0
    · simp only [if_pos hneg]
      exact ⟨s', rfl, hI'⟩
    · simp only [if_neg hneg]
      exact ih hI' (hR' (Int.not_lt.mp hneg))

theorem eachNode_master (h : Settles cfg l asked I R act) (hI : I s) :
    ∃ s', eachNode (onNode act) (l.master :: is) k (conns, s) =
      ((settled cfg l asked (l.master :: is) k conns).1,
        (settled cfg l asked (l.master :: is) k conns).2, s') ∧ I s' := by
  obtain ⟨s', hact, hI', hR'⟩ := h l.master (conns l.master) s hI (.inl rfl)
  unfold settled eachNode onNode
  simp only [hact]
  by_cases hneg : l.outcome cfg asked l.master < 0
  · simp only [if_pos hneg]
    exact ⟨s', rfl, hI'⟩
  · simp only [if_neg hneg]
    exact eachNode_others h hI' (hR' (Int.not_lt.mp hneg))

/-- The loop ends with zero only if every node has accepted, where none but the last answers otherwise
than by acceptance or refusal. -/
theorem settled_zero (hpos : ∀ i ∈ is.dropLast, l.outcome cfg asked i ≤ 0)
    (h : (settled cfg l asked is k conns).1 = 0) : ∀ i ∈ is, l.outcome cfg asked i = 0 := by
  induction is generalizing k conns with
  | nil => nofun
  | cons i is ih =>
    unfold settled eachNode at h
    by_cases hneg : l.outcome cfg asked i < 0
    · simp [hneg] at h
    · simp only [if_neg hneg] at h
      cases is with
      | nil =>
        intro j hj
        rw [List.mem_singleton.mp hj]
        exact h
      | cons i' is =>
        rw [List.dropLast_cons_cons] at hpos
        intro j hj
        obtain rfl | hj := List.mem_cons.mp hj
        · have hle := hpos j List.mem_cons_self
          omega
        · exact ih (fun j hj => hpos j (List.mem_cons_of_mem _ hj)) h j hj

theorem authKind_saved {conn : Conn} (h : l.outcome cfg asked i = 0) :
    (l.saved cfg asked i conn).authKind = asked := by
  unfold Login.saved
  split
  · rename_i hfive
    exact hfive.1.symm
  · split
    · rename_i hp
      rw [outcome_of_packet_none hp] at h
      omega
    · rfl

/-- The connections record how they were authenticated. -/
theorem authKind_settled (hzero : ∀ i ∈ is, l.outcome cfg asked i = 0)
    (hi : i ∈ is ∨ (conns i).authKind = asked) :
    ((settled cfg l asked is k conns).2 i).authKind = asked := by
  induction is generalizing k conns with
  | nil => exact hi.resolve_left List.not_mem_nil
  | cons j is ih =>
    have hj := hzero j List.mem_cons_self
    unfold settled eachNode
    simp only [hj, Int.lt_irrefl, if_false, if_true]
    refine ih (fun i hi => hzero i (List.mem_cons_of_mem _ hi)) ?_
    by_cases hij : i = j
    · subst hij
      right
      rw [Function.update_self]
      exact authKind_saved hj
    · rw [Function.update_of_ne hij]
      obtain hi | hi := hi
      · exact .inl ((List.mem_cons.mp hi).resolve_left hij)
      · exact .inr hi

end

theorem accepts_of_outcome (hasked : asked ≠ 0) (h : l.outcome cfg asked i = 0) :
    l.Accepts cfg asked i := by
  unfold Login.Accepts
  rw [if_neg hasked]
  have hans : l.answered cfg asked i = 0 := by
    unfold Login.outcome at h
    split at h
    · omega
    · exact h
  unfold Login.answered at hans
  split at hans
  · omega
  · rename_i packet hcred
    refine ⟨packet, hcred, ?_⟩
    split at hans
    · omega
    · split at hans
      · assumption
      · exact hans

theorem outcome_le (h : ∀ packet, l.credential cfg asked i = some packet →
    l.exchange i (saltLen asked) packet ≤ 0) : l.outcome cfg asked i ≤ 0 := by
  have hans : l.answered cfg asked i ≤ 0 := by
    unfold Login.answered
    split
    · omega
    · rename_i packet hcred
      have hle := h packet hcred
      split
      · omega
      · split
        · split <;> omega
        · exact hle
  unfold Login.outcome
  split
  · omega
  · exact hans

/-! ## New connections -/

/-- The branches of `pool_do_auth` without the static variables. -/
def outcomes (cfg : Config) (l : Login) (asked : Nat) : Int × (Nat → Conn) :=
  if asked = 0 then (if l.sends l.master then 0 else -1, fun _ => Conn.fresh)
  else if asked = 3 ∨ asked = 4 then settled cfg l asked (l.nodes cfg) asked fun _ => Conn.fresh
  else if asked = 5 then
    if l.uaMD5 = false ∧ cfg.rawMode = false ∧ 1 < cfg.numBackends then (-1, fun _ => Conn.fresh)
    else settled cfg l asked (l.nodes cfg) asked fun _ => Conn.fresh
  else (-1, fun _ => Conn.fresh)

/-- `do_md5`, whatever the number of nodes. -/
theorem eachNode_doMd5 {post : List Nat} {k : Int} {conns : Nat → Conn} {s : Md5Static}
    (hfits : l.ReadsMd5 cfg false → Fits l)
    (hmode : ¬ (l.uaMD5 = false ∧ cfg.rawMode = false ∧ 1 < cfg.numBackends)) (hin : Within s) :
    ∃ s', eachNode (onNode fun i => doMd5 cfg l i false) (l.master :: post) k (conns, s) =
      ((settled cfg l 5 (l.master :: post) k conns).1,
        (settled cfg l 5 (l.master :: post) k conns).2, s') ∧ Within s' := by
  unfold Login.ReadsMd5 at hfits
  by_cases hsev : 1 < cfg.numBackends
  · rw [if_pos hsev] at hfits
    refine eachNode_master (settles_doMd5Several hsev fun hp => hfits ⟨hp, .inr ?_⟩) hin
    by_cases hua : l.uaMD5 = true
    · exact .inl hua
    · by_cases hraw : cfg.rawMode = true
      · exact .inr hraw
      · simp only [Bool.not_eq_true] at hua hraw
        exact absurd ⟨hua, hraw, hsev⟩ hmode
  · rw [if_neg hsev] at hfits
    exact eachNode_master (settles_doMd5Single hsev fun hs => hfits (.inr hs)) hin

theorem authenticate_eq {post : List Nat} (hnodes : l.nodes cfg = l.master :: post)
    (hfits : asked = 5 → l.ReadsMd5 cfg false → Fits l) (hin : Within st.md5) :
    ∃ st', authenticate cfg l asked st =
      ((outcomes cfg l asked).1, (outcomes cfg l asked).2, st') ∧ Within st'.md5 := by
  unfold authenticate outcomes
  by_cases h0 : asked = 0
  · simp only [if_pos h0]
    exact ⟨st, rfl, hin⟩
  simp only [if_neg h0]
  by_cases h3 : asked = 3
  · subst h3
    obtain ⟨s', heq, _⟩ := @eachNode_master cfg l 3 _ _ _ _ post 3 (fun _ => Conn.fresh) st.clear
      settles_doClearTextPassword trivial
    simp only [true_or, if_true, hnodes, heq]
    exact ⟨_, rfl, hin⟩
  by_cases h4 : asked = 4
  · subst h4
    obtain ⟨s', heq, _⟩ := @eachNode_master cfg l 4 _ _ _ _ post 4 (fun _ => Conn.fresh) st.crypt
      settles_doCrypt trivial
    simp only [h3, if_false, or_true, if_true, hnodes, heq]
    exact ⟨_, rfl, hin⟩
  simp only [h3, h4, or_self, if_false]
  by_cases h5 : asked = 5
  · subst h5
    by_cases hmode : l.uaMD5 = false ∧ cfg.rawMode = false ∧ 1 < cfg.numBackends
    · simp only [if_true, if_pos hmode]
      exact ⟨st, rfl, hin⟩
    · obtain ⟨s', heq, hin'⟩ := @eachNode_doMd5 cfg l post 5 (fun _ => Conn.fresh) st.md5
        (hfits rfl) hmode hin
      simp only [if_true, if_neg hmode, hnodes, heq]
      exact ⟨_, rfl, hin'⟩
  · simp only [if_neg h5]
    exact ⟨st, rfl, hin⟩

/-- Zero comes out only if every node has accepted, and the connections record how. -/
theorem outcomes_zero (hdecided : asked ≠ 0 → l.Decided cfg asked)
    (h : (outcomes cfg l asked).1 = 0) :
    (asked ≠ 0 → ∀ i ∈ l.nodes cfg, l.Accepts cfg asked i) ∧
      ∀ i ∈ l.nodes cfg, ((outcomes cfg l asked).2 i).authKind = asked := by
  unfold outcomes at h ⊢
  by_cases h0 : asked = 0
  · simp only [if_pos h0]
    exact ⟨fun hne => absurd h0 hne, fun _ _ => h0.symm⟩
  have hsettled : ∀ k conns, (settled cfg l asked (l.nodes cfg) k conns).1 = 0 →
      (asked ≠ 0 → ∀ i ∈ l.nodes cfg, l.Accepts cfg asked i) ∧
        ∀ i ∈ l.nodes cfg, ((settled cfg l asked (l.nodes cfg) k conns).2 i).authKind = asked := by
    intro k conns h
    have hzero := settled_zero (fun i hi => outcome_le (hdecided h0 i hi)) h
    exact ⟨fun _ i hi => accepts_of_outcome h0 (hzero i hi),
      fun i hi => authKind_settled hzero (.inl hi)⟩
  simp only [if_neg h0] at h ⊢
  split at h
  · rename_i h34
    simp only [if_pos h34]
    exact hsettled _ _ h
  · rename_i h34
    simp only [if_neg h34]
    split at h
    · rename_i h5
      simp only [if_pos h5]
      split at h
      · cases h
      · rename_i hmode
        simp only [if_neg hmode]
        exact hsettled _ _ h
    · cases h

/-- The connection that `pool_do_auth` makes, without the static variables. -/
def opened (cfg : Config) (l : Login) : Option Pool :=
  if l.master ∉ l.nodes cfg then none
  else
    match l.askedKind cfg with
    | none => none
    | some asked =>
      if (outcomes cfg l asked).1 = 0 ∧ l.finish = true then
        some {
          user := l.user, database := l.database, major := l.major, startup := l.startup
          slots := fun i => if i ∈ l.nodes cfg then some ((outcomes cfg l asked).2 i) else none
          kind := asked }
      else none

theorem poolDoAuth_eq (h : l.Fresh cfg) (hin : Within st.md5) :
    ∃ st', poolDoAuth cfg l st = (opened cfg l, st') ∧ Within st'.md5 := by
  unfold poolDoAuth opened
  by_cases hmem : l.master ∈ l.nodes cfg
  · simp only [hmem, not_true_eq_false, if_false]
    cases hasked : l.askedKind cfg with
    | none => exact ⟨st, rfl, hin⟩
    | some asked =>
      obtain ⟨⟨post, hnodes⟩, _⟩ := askedKind_spec hmem h.1 hasked
      obtain ⟨st', heq, hin'⟩ := authenticate_eq hnodes (h.2 asked hasked).1 hin
      simp only [heq]
      refine ⟨st', ?_, hin'⟩
      split <;> rfl
  · simp only [hmem, not_false_eq_true, if_true]
    exact ⟨st, rfl, hin⟩

theorem opened_spec {pool : Pool} (h : l.Fresh cfg) (hopen : opened cfg l = some pool) :
    (∀ i ∈ l.nodes cfg, l.Accepts cfg pool.kind i) ∧
      ∀ i conn, pool.slots i = some conn → conn.authKind = pool.kind := by
  unfold opened at hopen
  split at hopen
  · cases hopen
  · rename_i hmem
    split at hopen
    · cases hopen
    · rename_i asked hasked
      split at hopen
      · rename_i hok
        cases hopen
        obtain ⟨hacc, hkind⟩ := outcomes_zero (h.2 asked hasked).2 hok.1
        obtain ⟨_, hreq⟩ := askedKind_spec (not_not.mp hmem) h.1 hasked
        constructor
        · intro i hi
          by_cases h0 : asked = 0
          · subst h0
            exact hreq i hi
          · exact hacc h0 i hi
        · intro i conn hconn
          simp only at hconn
          split at hconn
          · rename_i hi
            cases hconn
            exact hkind i hi
          · cases hconn
      · cases hopen

/-! ## Pooled connections -/

/-- The comparison of the packet with the saved one, without the static variables. -/
def presents (l : Login) (conn : Conn) : Bool :=
  match l.packet with
  | none => false
  | some (_, b) => (b.length : Int) = conn.pwdSize ∧ b = conn.password.take conn.pwdSize.toNat

/-- The result of `pool_do_reauth`, without the static variables. -/
def readmitted (cfg : Config) (l : Login) (conn : Conn) : Bool :=
  if conn.authKind = 0 then true
  else if conn.authKind = 3 ∨ conn.authKind = 4 then presents l conn
  else if conn.authKind = 5 then
    if 1 < cfg.numBackends then (l.vouched cfg).isSome
    else presents l conn && l.packet.map Prod.snd != some []
  else false

theorem reauthenticates_eq {conn : Conn} {w b password : List UInt8} {size : Int}
    (hp : l.packet = some (w, b)) (hsize : size = b.length) (htake : password.take b.length = b) :
    reauthenticates conn size password = if presents l conn then 0 else -1 := by
  unfold reauthenticates presents
  rw [hp, hsize]
  by_cases hlen : (b.length : Int) = conn.pwdSize
  · have hnat : conn.pwdSize.toNat = b.length := by omega
    rw [if_neg (not_not.mpr hlen), hnat, htake]
    simp [hlen]
  · simp [hlen]

/-- `do_clear_text_password` and `do_crypt` for a pooled connection. -/
theorem doPassword_reauth (s : Scheme) (conn : Conn) (st : Static) :
    ∃ conn' st', doPassword s l l.master true conn st =
      (if presents l conn then 0 else -1, conn', st') := by
  unfold doPassword
  simp only [Bool.true_eq_false, false_and, if_false, if_true]
  cases hp : l.packet with
  | none =>
    refine ⟨conn, (readPassword l st).2, ?_⟩
    simp [readPassword_none hp st, presents, hp]
  | some wb =>
    obtain ⟨w, b⟩ := wb
    obtain ⟨st', hread, rfl, hlen, htake⟩ := readPassword_some hp st
    simp only [hread, Bool.true_eq_false, if_false,
      reauthenticates_eq hp (Int.ofNat_inj.mpr hlen) htake]
    exact ⟨conn, st', rfl⟩

/-- `do_md5` for a pooled connection. -/
theorem doMd5_reauth (conn : Conn) (st : Md5Static) (hin : Within st)
    (hfits : l.ReadsMd5 cfg true → Fits l) :
    ∃ conn' st', doMd5 cfg l l.master true conn st =
      (if (if 1 < cfg.numBackends then (l.vouched cfg).isSome
          else presents l conn && l.packet.map Prod.snd != some []) then 0 else -1, conn', st') ∧
      Within st' := by
  unfold Login.ReadsMd5 at hfits
  unfold doMd5
  by_cases hsev : 1 < cfg.numBackends
  · simp only [if_pos hsev] at hfits ⊢
    unfold doMd5Several
    cases hpasswd : (l.username cfg).bind cfg.poolGetPasswd with
    | none =>
      have hv : l.vouched cfg = none := by
        unfold Login.vouched
        rw [hpasswd]
      rw [hv]
      exact ⟨conn, st, rfl, hin⟩
    | some passwd =>
      simp only [if_true]
      obtain ⟨st', hread, hin', hempty⟩ | ⟨st', hread, hin', w, b, hp, hb, _, hstr, _⟩ :=
        readPasswordPacket_cases st hin (hfits ⟨by rw [hpasswd]; rfl, .inl trivial⟩)
      · refine ⟨conn, st', ?_, hin'⟩
        simp [hread, vouched_eq_none hempty]
      · refine ⟨conn, st', ?_, hin'⟩
        have hv : l.vouched cfg =
            if cString b = cString (encrypted cfg passwd l.salt) then some passwd else none := by
          unfold Login.vouched
          rw [hpasswd, hp]
          simp [hb]
        rw [hv]
        by_cases hsame : cString b = cString (encrypted cfg passwd l.salt)
        · simp [hread, hstr, hsame]
        · simp [hread, hstr, hsame]
  · simp only [if_neg hsev] at hfits ⊢
    unfold doMd5Single
    simp only [Bool.true_eq_false, false_and, if_false, if_true]
    obtain ⟨st', hread, hin', hempty⟩ | ⟨st', hread, hin', w, b, hp, hb, hsize, _, htake⟩ :=
      readPasswordPacket_cases st hin (hfits (.inl trivial))
    · refine ⟨conn, st', ?_, hin'⟩
      have hno : (presents l conn && l.packet.map Prod.snd != some []) = false := by
        unfold presents
        cases hp : l.packet with
        | none => rfl
        | some wb => simp [hempty wb.1 wb.2 hp]
      simp [hread, hno]
    · refine ⟨conn, st', ?_, hin'⟩
      simp only [hread, Bool.true_eq_false, if_false, reauthenticates_eq hp hsize htake, hp,
        Option.map_some]
      simp [hb]

theorem poolDoReauth_eq (conn : Conn) (hin : Within st.md5)
    (hfits : conn.authKind = 5 → l.ReadsMd5 cfg true → Fits l) :
    ∃ st', poolDoReauth cfg l conn st =
      (readmitted cfg l conn && l.sends l.master && l.finish, st') ∧ Within st'.md5 := by
  have hreauth : ∃ st', reauthenticate cfg l conn st =
      (if readmitted cfg l conn then 0 else -1, st') ∧ Within st'.md5 := by
    unfold reauthenticate readmitted
    by_cases h0 : conn.authKind = 0
    · simp only [if_pos h0]
      exact ⟨st, rfl, hin⟩
    by_cases h3 : conn.authKind = 3
    · obtain ⟨conn', s', heq⟩ := @doPassword_reauth l clearScheme conn st.clear
      simp only [h3, doClearTextPassword, heq]
      exact ⟨_, rfl, hin⟩
    by_cases h4 : conn.authKind = 4
    · obtain ⟨conn', s', heq⟩ := @doPassword_reauth l cryptScheme conn st.crypt
      simp only [h4, doCrypt, heq]
      exact ⟨_, rfl, hin⟩
    by_cases h5 : conn.authKind = 5
    · obtain ⟨conn', s', heq, hin'⟩ := doMd5_reauth conn st.md5 hin (hfits h5)
      simp only [h5, heq]
      exact ⟨_, rfl, hin'⟩
    simp only [h0, h3, h4, h5, if_false, or_self]
    exact ⟨st, rfl, hin⟩
  obtain ⟨st', heq, hin'⟩ := hreauth
  refine ⟨st', ?_, hin'⟩
  unfold poolDoReauth
  rw [heq]
  cases readmitted cfg l conn <;> simp

theorem presents_of_eq_true {conn : Conn} (h : presents l conn = true) : l.Presents conn := by
  unfold presents at h
  split at h
  · cases h
  · rename_i w b hp
    exact ⟨w, b, hp, of_decide_eq_true h⟩

theorem reauthorised_of_readmitted {conn : Conn} (h : readmitted cfg l conn = true) :
    l.Reauthorised cfg conn.authKind conn := by
  unfold readmitted at h
  unfold Login.Reauthorised
  split at h
  · left
    assumption
  · right
    split at h
    · rename_i h34
      rw [if_neg (by omega)]
      exact presents_of_eq_true h
    · split at h
      · rename_i h5
        split at h
        · rename_i hsev
          rw [if_pos ⟨h5, hsev⟩]
          exact h
        · rename_i hsev
          rw [if_neg (fun h => hsev h.2)]
          exact presents_of_eq_true (Bool.and_eq_true_iff.mp h).1
      · cases h

/-! ## The life of a child -/

/-- Whatever the static variables hold, the same clients are admitted and the same connections made. -/
def Indifferent (cfg : Config) (c : Child) : Prop :=
  ∀ l statics, Careful cfg c (.login l) → Within statics.md5 →
    ((Child.login cfg { c with statics } l).pools, (Child.login cfg { c with statics } l).log) =
      ((Child.login cfg c l).pools, (Child.login cfg c l).log)

/-- What is claimed of a child: each admission is justified, the static variables do not decide, and
nothing is written behind them. -/
structure Sound (cfg : Config) (c : Child) : Prop where
  justified : ∀ a ∈ c.log, Justified cfg a
  within : Within c.statics.md5
  indifferent : Indifferent cfg c

/-- What the pooled connections record. -/
structure Kept (cfg : Config) (c : Child) : Prop where
  justified : ∀ a ∈ c.log, Justified cfg a
  within : Within c.statics.md5
  recorded : ∀ p ∈ c.pools, ∀ i conn, p.slots i = some conn → conn.authKind = p.kind

theorem kept_init : Kept cfg Child.init := ⟨nofun, rfl, nofun⟩

variable {c : Child}

/-- A new connection, without the static variables. -/
theorem connectBackend_eq {pools : List Pool} (h : l.connects = true → l.Fresh cfg)
    (hin : Within c.statics.md5) :
    ∃ statics, Within statics.md5 ∧ Child.connectBackend cfg c l pools =
      match (if l.connects = true then opened cfg l else none) with
      | none => { c with pools, statics }
      | some pool => { pools := pool :: pools, statics, log := .auth l pool.kind :: c.log } := by
  unfold Child.connectBackend
  by_cases hconn : l.connects = true
  · obtain ⟨st', heq, hin'⟩ := poolDoAuth_eq (h hconn) hin
    refine ⟨st', hin', ?_⟩
    simp only [hconn, Bool.true_eq_false, if_false, if_true, heq]
    cases opened cfg l <;> rfl
  · rw [Bool.not_eq_true] at hconn
    exact ⟨c.statics, hin, by simp only [hconn, if_true, Bool.false_eq_true, if_false]⟩

/-- A pooled connection again, without the static variables. -/
theorem connectUsingExisting_eq {pool : Pool} {conn : Conn}
    (h : conn.authKind = 5 → l.ReadsMd5 cfg true → Fits l) (hin : Within c.statics.md5) :
    ∃ statics, Within statics.md5 ∧ Child.connectUsingExisting cfg c l pool conn =
      if (readmitted cfg l conn && l.sends l.master && l.finish) = true then
        { c with statics, log := .reauth l pool conn :: c.log }
      else { c with statics } := by
  obtain ⟨st', heq, hin'⟩ := poolDoReauth_eq conn hin h
  refine ⟨st', hin', ?_⟩
  unfold Child.connectUsingExisting
  rw [heq]
  cases readmitted cfg l conn && l.sends l.master && l.finish <;> rfl

theorem reused_spec {pool : Pool} {conn : Conn} (h : c.reused l = some (pool, conn)) :
    pool ∈ c.pools ∧ pool.slots l.master = some conn := by
  unfold Child.reused at h
  split at h
  · cases h
  · rename_i hfind
    split at h
    · cases h
    · split at h
      · cases h
      · rename_i hslot
        cases h
        exact ⟨List.mem_of_find?_eq_some hfind, hslot⟩

theorem Kept.login (h : Kept cfg c) (hc : Careful cfg c (.login l)) : Kept cfg (c.login cfg l) := by
  unfold Careful at hc
  unfold Child.login
  cases hreused : c.reused l with
  | none =>
    simp only [hreused] at hc ⊢
    have hpools : ∀ p ∈ c.pools.eraseP (Child.isFor l), p ∈ c.pools :=
      fun p hp => List.mem_of_mem_eraseP hp
    obtain ⟨statics, hin, heq⟩ :=
      @connectBackend_eq _ _ c (c.pools.eraseP (Child.isFor l)) hc h.within
    rw [heq]
    split
    · exact ⟨h.justified, hin, fun p hp => h.recorded p (hpools p hp)⟩
    · rename_i pool hopen
      split at hopen
      · rename_i hconn
        obtain ⟨hacc, hkinds⟩ := opened_spec (hc hconn) hopen
        refine ⟨?_, hin, ?_⟩
        · intro a ha
          obtain rfl | ha := List.mem_cons.mp ha
          · exact hacc
          · exact h.justified a ha
        · intro p hp
          obtain rfl | hp := List.mem_cons.mp hp
          · exact hkinds
          · exact h.recorded p (hpools p hp)
      · cases hopen
  | some pc =>
    obtain ⟨pool, conn⟩ := pc
    simp only [hreused] at hc ⊢
    obtain ⟨hpool, hslot⟩ := reused_spec hreused
    have hkind := h.recorded pool hpool l.master conn hslot
    obtain ⟨statics, hin, heq⟩ := @connectUsingExisting_eq _ _ c pool conn (hkind ▸ hc) h.within
    rw [heq]
    split
    · rename_i hadmitted
      simp only [Bool.and_eq_true] at hadmitted
      refine ⟨?_, hin, h.recorded⟩
      intro a ha
      obtain rfl | ha := List.mem_cons.mp ha
      · exact ⟨hslot, hkind ▸ reauthorised_of_readmitted hadmitted.1.1⟩
      · exact h.justified a ha
    · exact ⟨h.justified, hin, h.recorded⟩

theorem Kept.indifferent (h : Kept cfg c) : Indifferent cfg c := by
  intro l statics hc hin
  unfold Careful at hc
  unfold Child.login
  have hsame : Child.reused { c with statics } l = c.reused l := rfl
  rw [hsame]
  cases hreused : c.reused l with
  | none =>
    simp only [hreused] at hc ⊢
    obtain ⟨_, _, heq⟩ := @connectBackend_eq _ _ c (c.pools.eraseP (Child.isFor l)) hc h.within
    obtain ⟨_, _, heq'⟩ :=
      @connectBackend_eq _ _ { c with statics } (c.pools.eraseP (Child.isFor l)) hc hin
    rw [heq, heq']
    split <;> rfl
  | some pc =>
    obtain ⟨pool, conn⟩ := pc
    simp only [hreused] at hc ⊢
    obtain ⟨hpool, hslot⟩ := reused_spec hreused
    have hkind := h.recorded pool hpool l.master conn hslot
    obtain ⟨_, _, heq⟩ := @connectUsingExisting_eq _ _ c pool conn (hkind ▸ hc) h.within
    obtain ⟨_, _, heq'⟩ :=
      @connectUsingExisting_eq _ _ { c with statics } pool conn (hkind ▸ hc) hin
    rw [heq, heq']
    split <;> rfl

theorem Kept.step {c' : Child} {e : Event} (h : Kept cfg c) (hc : Careful cfg c e)
    (hstep : Child.step cfg c e = some c') : Kept cfg c' := by
  cases e with
  | login l =>
    cases hstep
    exact h.login hc
  | discard n =>
    cases hstep
    exact ⟨h.justified, h.within, fun p hp => h.recorded p (List.mem_of_mem_eraseIdx hp)⟩

/-- One node. -/
def oneNode : Config where
  numBackends := 1
  rawMode := true
  enablePoolHba := false
  poolGetPasswd _ := none
  pgMd5Encrypt password _ := password

/-- A client of one node, which makes a request and accepts any password. -/
def loginOf (request input : List UInt8) : Login where
  major := .v3
  user := "postgres"
  database := "test"
  startup := []
  input := input
  uaMD5 := false
  salt := [1, 2, 3, 4]
  sends _ := true
  finish := true
  connects := true
  broken := false
  valid _ := true
  master := 0
  backend _ := ⟨request, fun _ => [0x52, 0, 0, 0, 8, 0, 0, 0, 0]⟩

/-- A clear text password of three bytes. -/
def clearLogin : Login :=
  loginOf [0x52, 0, 0, 0, 8, 0, 0, 0, 3] [0x70, 0, 0, 0, 7, 0x61, 0x62, 0x63]

/-- An md5 password of 1024 bytes. -/
def fullLogin : Login :=
  loginOf [0x52, 0, 0, 0, 12, 0, 0, 0, 5, 9, 9, 9, 9]
    ([0x70, 0, 0, 4, 4] ++ List.replicate maxPasswordSize 0x61)

end PgPool.Auth
