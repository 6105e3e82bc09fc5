import PgPool.Query.SelectWalker

/-!
# Calls that are not found

`pool_has_function_call` against the calls that stand anywhere in a SELECT.  It misses those below sub-nodes
that `raw_expression_tree_walker` passes over, and it takes the second part of a name for the function.
-/

namespace PgPool

open Walk

/-- The function of a qualified name: its last part. -/
def calledFunction (funcname : List String) : Option String := funcname.getLast?

/-- Not in a non-empty white list, or in the black list. -/
def PoolConfig.writes (cfg : PoolConfig) (fname : String) : Bool :=
  (decide (0 < cfg.numWhiteFunctionList) && !cfg.patternCompare fname .white) ||
    (decide (0 < cfg.numBlackFunctionList) && cfg.patternCompare fname .black)

/-- A `FuncCall` of such a function. -/
def isWritingCall (cfg : PoolConfig) : Node → Bool
  | .funcCall funcname _ _ _ => (calledFunction funcname).any cfg.writes
  | _ => false

/-- A `FuncCall` whose name has a catalog in front of the schema. -/
def hasLongName : Node → Bool
  | .funcCall funcname _ _ _ => decide (2 < funcname.length)
  | _ => false

/-- A `FuncCall` of a function in both lists, of which the white one is asked first. -/
def isInBothLists (cfg : PoolConfig) : Node → Bool
  | .funcCall funcname _ _ _ =>
      (calledFunction funcname).any fun fname =>
        decide (0 < cfg.numWhiteFunctionList) && cfg.patternCompare fname .white &&
          (decide (0 < cfg.numBlackFunctionList) && cfg.patternCompare fname .black)
  | _ => false

/-- What lies anywhere in a tree, and what the walker comes to. -/
def Occurs : Node → Node → Prop := Within Node.children

def Visited : Node → Node → Prop := Within Node.rawChildren

/-- A call that may be missed: the walker does not come to it; or it has a long name; or it is in both
lists. -/
def MayBeMissed (cfg : PoolConfig) (node call : Node) : Prop :=
  ¬ Visited node call ∨ hasLongName call = true ∨ isInBothLists cfg call = true

/-- Where the search is right: for a writing call that may be missed the walker finds another one, and
where it finds one by the second part of a long name, there is a writing call. -/
structure FindsCalls (cfg : PoolConfig) (node : Node) : Prop where
  missed : ∀ call, Occurs node call → isWritingCall cfg call = true → MayBeMissed cfg node call →
    ∃ found, Visited node found ∧ functionCallWalker cfg found = true
  spurious : ∀ found, Visited node found → hasLongName found = true → functionCallWalker cfg found = true →
    ∃ call, Occurs node call ∧ isWritingCall cfg call = true

/-- The walker comes to sub-nodes only. -/
theorem Visited.occurs {node m : Node} (h : Visited node m) : Occurs node m := h.mono rawChildren_subset

theorem funcCallName_eq {funcname : List String} (h : ¬ 2 < funcname.length) :
    funcCallName funcname = calledFunction funcname := by
  match funcname with
  | [] => rfl
  | [_] => rfl
  | [_, _] => rfl
  | _ :: _ :: _ :: _ => simp at h

/-- Of a short name, outside of one of the lists, the walker looks up the function. -/
theorem functionCallWalker_eq {cfg : PoolConfig} {m : Node} (hlong : hasLongName m = false)
    (hboth : isInBothLists cfg m = false) : functionCallWalker cfg m = isWritingCall cfg m := by
  cases m with
  | funcCall funcname args aggOrder overClause =>
    have hname := funcCallName_eq (of_decide_eq_false hlong)
    unfold functionCallWalker isWritingCall
    unfold isInBothLists at hboth
    dsimp only at hboth ⊢
    rw [hname]
    cases hcalled : calledFunction funcname with
    | none => rfl
    | some fname =>
      rw [hcalled, Option.any_some] at hboth
      rw [Option.any_some, PoolConfig.writes]
      by_cases hwhite : 0 < cfg.numWhiteFunctionList <;> by_cases hblack : 0 < cfg.numBlackFunctionList <;>
        by_cases hmatch : cfg.patternCompare fname .white = true <;> simp_all
  | _ => rfl

/-- What the walker finds by a short name is a writing call. -/
theorem isWritingCall_of_walker {cfg : PoolConfig} {m : Node} (hlong : hasLongName m = false)
    (h : functionCallWalker cfg m = true) : isWritingCall cfg m = true := by
  cases m with
  | funcCall funcname args aggOrder overClause =>
    have hname := funcCallName_eq (of_decide_eq_false hlong)
    unfold functionCallWalker at h
    unfold isWritingCall
    dsimp only at h ⊢
    rw [hname] at h
    cases hcalled : calledFunction funcname with
    | none => simp [hcalled] at h
    | some fname =>
      rw [Option.any_some, PoolConfig.writes]
      by_cases hwhite : 0 < cfg.numWhiteFunctionList <;> by_cases hblack : 0 < cfg.numBlackFunctionList <;>
        simp_all
  | _ => cases h

/-- **Function calls**: when `pool_has_function_call` is true exactly of the SELECTs with a writing call. -/
theorem poolHasFunctionCall_complete_iff (cfg : PoolConfig) (stmt : SelectStmt Node) :
    (poolHasFunctionCall cfg (.selectStmt stmt) = true ↔
        ∃ call, Occurs (.selectStmt stmt) call ∧ isWritingCall cfg call = true) ↔
      FindsCalls cfg (.selectStmt stmt) := by
  have hfound : poolHasFunctionCall cfg (.selectStmt stmt) = true ↔
      ∃ m, Visited (.selectStmt stmt) m ∧ functionCallWalker cfg m = true := by
    rw [poolHasFunctionCall_iff]
    exact and_iff_right rfl
  rw [hfound]
  constructor
  · exact fun h => ⟨fun call hcall hwrites _ => h.mpr ⟨call, hcall, hwrites⟩,
      fun found hfound _ hwalker => h.mp ⟨found, hfound, hwalker⟩⟩
  · intro h
    constructor
    · rintro ⟨found, hvisited, hwalker⟩
      cases hlong : hasLongName found with
      | false => exact ⟨found, hvisited.occurs, isWritingCall_of_walker hlong hwalker⟩
      | true => exact h.spurious found hvisited hlong hwalker
    · rintro ⟨call, hcall, hwrites⟩
      by_cases hmissed : MayBeMissed cfg (.selectStmt stmt) call
      · exact h.missed call hcall hwrites hmissed
      · simp only [MayBeMissed, not_or, not_not, Bool.not_eq_true] at hmissed
        obtain ⟨hvisited, hlong, hboth⟩ := hmissed
        exact ⟨call, hvisited, (functionCallWalker_eq hlong hboth).trans hwrites⟩

/-- A configuration with "nextval" in its black list. -/
def nextvalBlack : PoolConfig :=
  { Setup.standbyPair.toPoolConfig with
    listsPatterns := [⟨.black, fun fname => fname == "nextval"⟩]
    numBlackFunctionList := 1 }

/-- `nextval('s')`. -/
def nextvalCall : Node := .funcCall ["nextval"] [.aConst (.string "s")] [] .null

/-- `array_agg(c ORDER BY nextval('s'))`. -/
def orderedCall : Node := .funcCall ["array_agg"] [.plain ⟨.columnRef, rfl⟩ 0] [.sortBy nextvalCall] .null

/-- The call in the ORDER BY of an aggregate is not found. -/
theorem not_complete_orderedCall :
    poolHasFunctionCall nextvalBlack (.selectStmt (.ofTargets [.resTarget [] orderedCall])) = false ∧
      ∃ call, Occurs (.selectStmt (.ofTargets [.resTarget [] orderedCall])) call ∧
        isWritingCall nextvalBlack call = true := by
  refine ⟨rfl, nextvalCall, ?_, rfl⟩
  have hsort : Occurs (.sortBy nextvalCall) nextvalCall := .below List.mem_cons_self (.self _)
  have hcall : Occurs orderedCall nextvalCall :=
    .below (List.mem_append_left _ (List.mem_append_right _ List.mem_cons_self)) hsort
  have htarget : Occurs (.resTarget [] orderedCall) nextvalCall :=
    .below (List.mem_append_right _ List.mem_cons_self) hcall
  refine .below ?_ htarget
  simp [Node.children, SelectStmt.parts, SelectStmt.ofTargets]

end PgPool
