import PgPool.Pcp.Codec

/-!
# The commands of a failover

`trigger_failover_command()` replaces the placeholders of a command line and has the shell execute what
comes out.  Here a command line is also a text of a small language: it is read in one way only, and every
piece has a meaning of its own.
-/

namespace PgPool.FailoverCommand

open Pcp.Codec

/-! ## The source -/

/-- The members of `BackendInfo` that a command can name. -/
structure BackendInfo where
  hostname : CString
  port : Int32
  dataDirectory : CString

/-- The arguments of `trigger_failover_command()` but for the command line, what `pool_get_node_info()`
returns, and what `get_next_master_node()` returns. -/
structure Failover where
  node : Int32
  oldMaster : Int32
  newMaster : Int32
  oldPrimary : Int32
  nodeInfo : Int32 → Option BackendInfo
  nextMasterNode : Int32

/-- What has been executed, and the value that is returned. -/
structure Triggered where
  executed : Option Bytes
  result : Int32
  deriving DecidableEq

/-- `port_buf`, which has room for five characters. -/
def portBuf (n : Int32) : Bytes := (snprintf 6 n.toInt).1

/-- The switch: what is appended for the character behind a percent sign. -/
def placeholder (f : Failover) (info : BackendInfo) (val : UInt8) : Bytes :=
  if val = 112 then portBuf info.port
  else if val = 68 then info.dataDirectory.1
  else if val = 100 then portBuf f.node
  else if val = 104 then info.hostname.1
  else if val = 72 then
    match f.nodeInfo f.nextMasterNode with
    | some newmaster => newmaster.hostname.1
    | none => []
  else if val = 109 then portBuf f.newMaster
  else if val = 77 then portBuf f.oldMaster
  else if val = 80 then portBuf f.oldPrimary
  else if val = 37 then [37]
  else []

/-- The loop over the command line, from a position on. -/
def execCmd (f : Failover) (info : BackendInfo) : Bytes → Bytes
  | [] => []
  | c :: rest =>
    if c = 37 then
      match rest with
      | [] => []
      | val :: rest => placeholder f info val ++ execCmd f info rest
    else c :: execCmd f info rest

/-- `trigger_failover_command()`; the memory is there. -/
def triggerFailoverCommand (system : Bytes → Int32) (numBackends : Int32) (f : Failover)
    (commandLine : Option CString) : Triggered :=
  match commandLine with
  | none => ⟨none, 0⟩
  | some line =>
    if line.1 = [] then ⟨none, 0⟩
    else if f.node < 0 ∨ numBackends < f.node then ⟨none, -1⟩
    else
      match f.nodeInfo f.node with
      | none => ⟨none, -1⟩
      | some info =>
        let cmd := execCmd f info line.1
        if cmd = [] then ⟨none, 0⟩ else ⟨some cmd, system cmd⟩

/-! ## Command lines as a language -/

/-- A piece of a command line: a character that stands for itself, or a percent sign with a
character behind it. -/
inductive Piece where
  | plain (c : UInt8) (h : c ≠ 37)
  | percent (val : UInt8)
  deriving DecidableEq

namespace Piece

def text : Piece → Bytes
  | plain c _ => [c]
  | percent val => [37, val]

/-- What the piece stands for. -/
def meaning (f : Failover) (info : BackendInfo) : Piece → Bytes
  | plain c _ => [c]
  | percent val => placeholder f info val

end Piece

/-- A command line: pieces, and a percent sign at the end that has nothing behind it. -/
structure Template where
  pieces : List Piece
  lone : Bool
  deriving DecidableEq

namespace Template

def cons (p : Piece) (t : Template) : Template := ⟨p :: t.pieces, t.lone⟩

def text (t : Template) : Bytes := t.pieces.flatMap Piece.text ++ if t.lone then [37] else []

/-- The command: the meanings of the pieces, and nothing for a lone percent sign. -/
def meaning (f : Failover) (info : BackendInfo) (t : Template) : Bytes :=
  t.pieces.flatMap (Piece.meaning f info)

/-- A command line as a template. -/
def read : Bytes → Template
  | [] => ⟨[], false⟩
  | c :: rest =>
    if h : c = 37 then
      match rest with
      | [] => ⟨[], true⟩
      | val :: rest => cons (.percent val) (read rest)
    else cons (.plain c h) (read rest)

@[simp] theorem text_cons (p : Piece) (t : Template) : (cons p t).text = p.text ++ t.text := by
  rw [cons, text, List.flatMap_cons, List.append_assoc]
  rfl

@[simp] theorem meaning_cons (f : Failover) (info : BackendInfo) (p : Piece) (t : Template) :
    (cons p t).meaning f info = p.meaning f info ++ t.meaning f info := by
  simp [cons, meaning]

/-- Every text is one of a template. -/
theorem text_read (line : Bytes) : (read line).text = line := by
  fun_induction read line with
  | case1 => rfl
  | case2 => rfl
  | case3 val rest ih => simp [Piece.text, ih]
  | case4 c rest hc ih => simp [Piece.text, ih]

/-- And of only one. -/
theorem read_text (ps : List Piece) (lone : Bool) : read (text ⟨ps, lone⟩) = ⟨ps, lone⟩ := by
  induction ps with
  | nil =>
    cases lone with
    | true => rfl
    | false => rfl
  | cons p ps ih =>
    have htext : text ⟨p :: ps, lone⟩ = p.text ++ text ⟨ps, lone⟩ := text_cons p ⟨ps, lone⟩
    rw [htext]
    cases p with
    | plain c hc =>
      rw [Piece.text, List.singleton_append, read.eq_def]
      simp [hc, ih, cons]
    | percent val =>
      rw [Piece.text, List.cons_append, List.singleton_append, read.eq_def]
      simp [ih, cons]

end Template

variable {f : Failover} {info : BackendInfo}

/-- The loop gives each piece its meaning. -/
theorem execCmd_eq (line : Bytes) : execCmd f info line = (Template.read line).meaning f info := by
  fun_induction Template.read line with
  | case1 => rfl
  | case2 => rfl
  | case3 val rest ih =>
    rw [execCmd, if_pos rfl, Template.meaning_cons, ← ih]
    rfl
  | case4 c rest hc ih =>
    rw [execCmd.eq_def, Template.meaning_cons, ← ih]
    simp [hc, Piece.meaning]

/-- **Main result.** A command line is read in one way, and the function executes the meaning of its
pieces: where that is something to execute, and the node is there. -/
theorem triggerFailoverCommand_spec (system : Bytes → Int32) (numBackends : Int32) (f : Failover)
    (line : CString) :
    ∃ t : Template, t.text = line.1 ∧ (∀ t' : Template, t'.text = line.1 → t' = t) ∧
      ∀ cmd, triggerFailoverCommand system numBackends f (some line) = ⟨some cmd, system cmd⟩ ↔
        ¬ (f.node < 0 ∨ numBackends < f.node) ∧ cmd ≠ [] ∧
          ∃ info, f.nodeInfo f.node = some info ∧ t.meaning f info = cmd := by
  refine ⟨.read line.1, Template.text_read line.1, fun t ht => ?_, fun cmd => ?_⟩
  · rw [← ht, Template.read_text t.pieces t.lone]
  · rw [triggerFailoverCommand]
    by_cases hline : line.1 = []
    · -- an empty command line means nothing
      have hnothing : ∀ info, (Template.read []).meaning f info = [] := fun _ => rfl
      simp only [hline, if_true, Triggered.mk.injEq, reduceCtorEq, false_and, false_iff]
      rintro ⟨-, hcmd, info, -, hmeaning⟩
      exact hcmd (by rw [← hmeaning, hnothing])
    · rw [if_neg hline]
      by_cases hnode : f.node < 0 ∨ numBackends < f.node
      · simp [hnode]
      · rw [if_neg hnode]
        cases hinfo : f.nodeInfo f.node with
        | none => simp
        | some info =>
          simp only [execCmd_eq, hnode, not_false_eq_true, true_and, Option.some.injEq,
            exists_eq_left']
          by_cases hempty : (Template.read line.1).meaning f info = []
          · simp only [hempty, if_true, Triggered.mk.injEq, reduceCtorEq, false_and, false_iff]
            rintro ⟨hcmd, heq⟩
            exact hcmd heq.symm
          · rw [if_neg hempty, Triggered.mk.injEq, Option.some.injEq]
            constructor
            · rintro ⟨rfl, -⟩
              exact ⟨hempty, rfl⟩
            · rintro ⟨-, rfl⟩
              exact ⟨rfl, rfl⟩

/-! ## Numbers -/

/-- A number is cut if it has more than five characters. -/
theorem portBuf_eq_iff (n : Int32) : portBuf n = Pcp.Codec.decimal n.toInt ↔ Within 5 n.toInt := by
  rw [← length_decimal_le (by decide)]
  exact List.take_eq_self_iff _

end PgPool.FailoverCommand
