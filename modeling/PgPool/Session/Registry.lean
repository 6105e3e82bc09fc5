import PgPool.Lib.Keyed
import PgPool.Session.Context

/-!
# The list of sent messages

`pool_session_context.c`: the registry of the prepared statements and portals that the backends
have accepted, and the reference counting by which removing a message destroys its query context.
-/

namespace PgPool

open Keyed

namespace Session

variable (s : Session) (kind : MsgKind) (name : String) (m : SentMessage)

/-- `pool_get_sent_message`. -/
def getSentMessage : Option SentMessage := lookup SentMessage.key (kind, name) s.messageList

/-- `can_query_context_destroy`: at most one entry of the list refers to the context. -/
def canQueryContextDestroy (qc : QcId) : Bool :=
  (s.messageList.filter fun m => m.queryContext == qc).length ≤ 1

/-- `pool_sent_message_destroy`.  `pool_query_context_destroy` resets the in-progress flag and the
session's query context, which are put back afterwards; the latter unless it was the destroyed one. -/
def sentMessageDestroy : Session :=
  if s.canQueryContextDestroy m.queryContext then
    let t := s.queryContextDestroy m.queryContext
    { t with
      inProgress := s.inProgress
      queryContext := if s.queryContext = some m.queryContext then none else s.queryContext }
  else s

/-- `pool_remove_sent_message`: destroys the first message of that kind and name while it is still
in the list, then deletes it. -/
def removeSentMessage : Session × Bool :=
  match s.getSentMessage kind name with
  | none => (s, false)
  | some m =>
      ((s.sentMessageDestroy m).setMessageList (remove SentMessage.key (kind, name) s.messageList),
        true)

/-- The loop of `pool_remove_sent_messages` at index `i`.  A pass either goes on to the next index
or makes the list shorter, so that as many passes are enough as the list has entries. -/
def removeSentMessagesLoop : Nat → Nat → Session → Session
  | 0, _, s => s
  | fuel + 1, i, s =>
      match s.messageList[i]? with
      | none => s
      | some m =>
          if m.kind = kind then
            match s.removeSentMessage kind m.name with
            | (s, true) => removeSentMessagesLoop fuel i s
            | (s, false) => removeSentMessagesLoop fuel (i + 1) s
          else removeSentMessagesLoop fuel (i + 1) s

/-- `pool_remove_sent_messages`. -/
def removeSentMessages : Session := removeSentMessagesLoop kind s.messageList.length 0 s

/-- The loop of `pool_clear_sent_message_list`; every pass empties the list of one kind. -/
def clearSentMessageLoop : Nat → Session → Session
  | 0, s => s
  | fuel + 1, s =>
      match s.messageList with
      | [] => s
      | m :: _ => clearSentMessageLoop fuel (s.removeSentMessages m.kind)

/-- `pool_clear_sent_message_list`. -/
def clearSentMessageList : Session := clearSentMessageLoop s.messageList.length s

/-- `pool_add_sent_message`: an entry with an empty name is replaced, any other entry stays and the
message is dropped. -/
def addSentMessage : Session :=
  match s.getSentMessage m.kind m.name with
  | some old =>
      if m.name = "" then
        let s := (s.removeSentMessage old.kind old.name).1
        s.setMessageList (s.messageList ++ [m])
      else s
  | none => s.setMessageList (s.messageList ++ [m])

/-- `pool_session_context_destroy`. -/
def sessionContextDestroy : Session :=
  let s := s.clearSentMessageList
  { s with toSessionContext := SessionContext.zeroed }

end Session

end PgPool
