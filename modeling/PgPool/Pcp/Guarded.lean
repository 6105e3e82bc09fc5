import PgPool.Pcp.Child

/-!
# Packets that are executed without authentication

A salt and the authenticated flag can outlive the connection they belong to.  Where a client answers
only salts of its own connection, and does not authenticate again without a new salt, every packet
that is executed has been authenticated.
-/

namespace PgPool.Pcp

variable {log : List Deed} {conn salt : Nat} {d : Deed}

theorem Authorised.cons (h : Authorised log conn) (d : Deed) : Authorised (d :: log) conn := by
  obtain ⟨a, ha, hauth⟩ := h
  refine ⟨a, List.mem_cons_of_mem d ha, ?_⟩
  split at hauth
  · exact ⟨hauth.1, List.mem_cons_of_mem d hauth.2⟩
  · exact hauth

theorem authorised_verified (h : .sent conn salt ∈ log) :
    Authorised (.verified conn salt true :: log) conn :=
  ⟨_, List.mem_cons_self, rfl, List.mem_cons_of_mem _ h⟩

namespace PcpChild

variable {md5 : Md5Encrypt} {c c' : PcpChild} {e : PcpEvent} {body : Option (List Char)}
  {ans : PcpAnswers} {tos : Char}

/-- An `R` answers a salt that was sent on its own connection; without a salt it does not come on a
connection that is authenticated already. -/
def Careful (c : PcpChild) : PcpEvent → Prop
  | .packet tos _ _ => tos = 'R' → ∀ conn ∈ c.frontend,
      if c.randomSalt then .sent conn c.salts ∈ c.log else c.authenticated = false
  | _ => True

instance (c : PcpChild) (e : PcpEvent) : Decidable (Careful c e) :=
  match e with
  | .packet tos _ _ => inferInstanceAs (Decidable (tos = 'R' → ∀ conn ∈ c.frontend,
      if c.randomSalt then .sent conn c.salts ∈ c.log else c.authenticated = false))
  | .accept | .timeout => isTrue trivial

/-- The flags belong to the open connection and to the salt that was sent last. -/
structure Sound (c : PcpChild) : Prop where
  guarded : Guarded c.log
  authorised : c.authenticated = true → ∃ conn ∈ c.frontend, Authorised c.log conn
  unused : c.randomSalt = true → ∀ d ∈ c.log, d.verifies c.salts = false
  counted : ∀ d ∈ c.log, ∀ salt, c.salts < salt → d.verifies salt = false

theorem sound_init : Sound init := ⟨trivial, nofun, nofun, nofun⟩

/-- A deed that is neither a verification nor the execution of a packet. -/
theorem Sound.note (h : Sound c) (hguarded : Guarded (d :: c.log))
    (hd : ∀ salt, d.verifies salt = false) (hlog : c'.log = d :: c.log)
    (hauth : c'.authenticated = true → c.authenticated = true ∧ c'.frontend = c.frontend)
    (hsalt : c'.randomSalt = true → c.randomSalt = true) (hsalts : c'.salts = c.salts) :
    Sound c' where
  guarded := hlog ▸ hguarded
  authorised ha := by
    obtain ⟨hold, hfrontend⟩ := hauth ha
    obtain ⟨conn, hconn, hauthorised⟩ := h.authorised hold
    rw [hlog, hfrontend]
    exact ⟨conn, hconn, hauthorised.cons d⟩
  unused hs := by
    rw [hlog, hsalts]
    intro a ha
    obtain rfl | ha := List.mem_cons.1 ha
    · exact hd _
    · exact h.unused (hsalt hs) a ha
  counted := by
    rw [hlog, hsalts]
    intro a ha salt hlt
    obtain rfl | ha := List.mem_cons.1 ha
    · exact hd _
    · exact h.counted a ha salt hlt

theorem sound_accept (h : Sound c) (hidle : c.frontend = none) : Sound c.accept := by
  refine h.note (d := .accepted c.conns) h.guarded (fun _ => rfl) rfl (fun ha => ?_) id rfl
  obtain ⟨conn, hconn, -⟩ := h.authorised ha
  rw [hidle] at hconn
  cases hconn

theorem sound_close (h : Sound c) (hauth : c.authenticated = false) (conn : Nat) :
    Sound (c.close conn) := by
  refine h.note (d := .closed conn) h.guarded (fun _ => rfl) rfl (fun ha => ?_) id rfl
  change c.authenticated = true at ha
  rw [hauth] at ha
  cases ha

theorem sound_setAuthenticated (h : Sound c) : Sound (c.setAuthenticated false) :=
  ⟨h.guarded, nofun, h.unused, h.counted⟩

theorem sound_dropSalt (h : Sound c) : Sound { c with randomSalt := false } :=
  ⟨h.guarded, h.authorised, nofun, h.counted⟩

/-- An `R` that fails closes a connection that is not authenticated. -/
theorem sound_answerR (h : Sound c) (hstale : c.randomSalt = false → c.authenticated = false)
    (conn : Nat) : Sound (c.answerR conn) := by
  unfold answerR
  split
  · rename_i hfailed
    refine sound_dropSalt (sound_close h ?_ conn)
    rw [Bool.or_eq_true, Bool.not_eq_true', Bool.not_eq_true'] at hfailed
    exact hfailed.elim hstale id
  · exact sound_dropSalt h

/-- A packet is checked against the salt, which no other packet has been. -/
theorem sound_verified (h : Sound c) (hsalt : c.randomSalt = true) (hconn : c.frontend = some conn)
    (hsent : .sent conn c.salts ∈ c.log) (ok : Bool) (line : List Char) :
    Sound { c with
      authenticated := ok
      randomSalt := false
      line := line
      log := .verified conn c.salts ok :: c.log } where
  guarded := ⟨h.unused hsalt, h.guarded⟩
  authorised hok := by
    change ok = true at hok
    subst hok
    exact ⟨conn, hconn, authorised_verified hsent⟩
  unused := nofun
  counted := by
    intro a ha salt hlt
    obtain rfl | ha := List.mem_cons.1 ha
    · simp only [Deed.verifies, beq_eq_false_iff_ne]
      exact Nat.ne_of_lt hlt
    · exact h.counted a ha salt hlt

theorem sound_processR (h : Sound c) (hconn : c.frontend = some conn)
    (hcareful : if c.randomSalt then .sent conn c.salts ∈ c.log else c.authenticated = false)
    (hnext : c.processR md5 conn body ans = some c') : Sound c' := by
  unfold processR at hnext
  split at hnext
  · rename_i hsalt
    rw [if_pos hsalt] at hcareful
    split at hnext
    · cases hnext
    · split at hnext
      · cases hnext
      · rename_i ok line _
        cases hnext
        have hverified := sound_verified h hsalt hconn hcareful ok line
        unfold answerR
        split
        · rename_i hfailed
          have hok : ok = false := by simpa [hsalt] using hfailed
          exact sound_close hverified hok conn
        · exact hverified
  · rename_i hsalt
    rw [if_neg hsalt] at hcareful
    cases hnext
    exact sound_answerR h (fun _ => hcareful) conn

theorem sound_processM (h : Sound c) : Sound (c.processM conn ans) where
  guarded := h.guarded
  authorised ha := by
    obtain ⟨conn', hconn, hauthorised⟩ := h.authorised ha
    exact ⟨conn', hconn, hauthorised.cons _⟩
  unused _ := by
    intro a ha
    obtain rfl | ha := List.mem_cons.1 ha
    · rfl
    · exact h.counted a ha _ (Nat.lt_succ_self _)
  counted := by
    intro a ha salt hlt
    obtain rfl | ha := List.mem_cons.1 ha
    · rfl
    · exact h.counted a ha salt (Nat.lt_of_succ_lt hlt)

theorem sound_execute (h : Sound c) (hconn : c.frontend = some conn) (hauth : c.authenticated = true)
    (tos : Char) : Sound (c.execute conn tos) := by
  refine h.note (d := .executed conn tos) ⟨?_, h.guarded⟩ (fun _ => rfl) rfl
    (fun ha => ⟨ha, rfl⟩) id rfl
  obtain ⟨conn', hconn', hauthorised⟩ := h.authorised hauth
  rw [hconn] at hconn'
  cases hconn'
  exact hauthorised

/-- **One pass** of the loop. -/
theorem sound_step (h : Sound c) (hcareful : Careful c e) (hstep : step md5 c e = some c') :
    Sound c' := by
  unfold step at hstep
  split at hstep
  · rename_i hidle
    cases hstep
    exact sound_accept h hidle
  · cases hstep
    exact sound_close (sound_setAuthenticated h) rfl _
  · rename_i conn tos body ans hconn
    split at hstep
    · rename_i hclosed
      cases hstep
      refine sound_close h ?_ conn
      rw [Bool.and_eq_true, Bool.not_eq_true'] at hclosed
      exact hclosed.1
    · rename_i hopen
      split at hstep
      · unfold processPacket at hstep
        split at hstep
        · rename_i htos
          exact sound_processR h hconn (hcareful htos conn hconn) hstep
        · split at hstep
          · cases hstep
            exact sound_processM h
          · rename_i hR hM
            have hauth : c.authenticated = true := by simpa [hR, hM] using hopen
            split at hstep
            · cases hstep
              exact sound_close (sound_setAuthenticated (sound_execute h hconn hauth tos)) rfl conn
            · split at hstep
              · cases hstep
                exact sound_execute h hconn hauth tos
              · cases hstep
      · cases hstep
  · cases hstep

/-- **PCP commands need authentication.** In every run in which an `R` answers only a salt of its own
connection and does not follow an accepted one without a new salt, each packet that is executed has
been authenticated on its connection, and no salt serves twice. -/
theorem guarded_of_careful (h : Transition.Run (step md5) Careful init c) : Guarded c.log :=
  (h.invariant (I := Sound) (fun _ _ _ hi hp hs => sound_step hi hp hs) sound_init).guarded

/-! ### Concrete runs -/

/-- The digests that authenticating `admin` takes: of the password in the file with the user name, and
of that with the salt. -/
def sampleMd5 : Md5Encrypt := fun password salt =>
  if password = "5ebe2294ecd0e0f08eab7690d2a6ee69".toList ∧ salt = "admin".toList then
    "fac0695d523f86b1b11d6e175e68dfc9".toList
  else if password = "fac0695d523f86b1b11d6e175e68dfc9".toList ∧ salt = "salt".toList then
    "02dbe79dd5a57440f43150ffa2584b69".toList
  else []

def sampleAnswers : PcpAnswers where
  newSalt := "salt".toList
  file := some "admin:5ebe2294ecd0e0f08eab7690d2a6ee69\n".toList
  survives := true

/-- The packet of `admin`. -/
def adminPacket : List Char :=
  "admin".toList ++ [nul] ++ "02dbe79dd5a57440f43150ffa2584b69".toList ++ [nul]

/-- The state after some events, if they can all be taken. -/
def after (es : List PcpEvent) : PcpChild :=
  (Transition.runAll (step sampleMd5) es init).getD init

theorem run_after {es : List PcpEvent} {P : PcpChild → PcpEvent → Prop}
    (h : (Transition.runAll (step sampleMd5) es init).isSome = true)
    (hP : Transition.Holds (step sampleMd5) P es init) :
    Transition.Run (step sampleMd5) P init (after es) := by
  obtain ⟨c, hc⟩ := Option.isSome_iff_exists.1 h
  rw [after, hc]
  exact .of_runAll hc hP

/-- A client authenticates and asks for the number of nodes. -/
def nodeCount : List PcpEvent :=
  [.accept, .packet 'M' none sampleAnswers, .packet 'R' (some adminPacket) sampleAnswers,
   .packet 'L' none sampleAnswers]

theorem guarded_nodeCount : Guarded (after nodeCount).log :=
  guarded_of_careful (run_after (by decide +kernel) (by decide +kernel))

/-- The client authenticates twice with one salt and is disconnected; the next one asks for the number
of nodes. -/
def authenticatedTwice : List PcpEvent :=
  nodeCount.take 3 ++ [.packet 'R' (some adminPacket) sampleAnswers, .accept,
    .packet 'L' none sampleAnswers]

/-- It gets it, without having sent anything else. -/
theorem not_guarded_authenticatedTwice :
    Transition.Run (step sampleMd5) Transition.Any init (after authenticatedTwice) ∧
      ¬ Guarded (after authenticatedTwice).log :=
  ⟨run_after (by decide +kernel) (Transition.holds_any _ _), by decide +kernel⟩

end PcpChild

end PgPool.Pcp
