import PgPool.Session.Context
import PgPool.Stream.Peek
import PgPool.Stream.Message

/-!
# Messages of a backend in both protocols

What follows the kind of a message: in protocol V3 a length word and the contents, in protocol V2 a
string with its null character.
-/

namespace PgPool

/-- A message of a backend, without those of protocol V2 that are not a string. -/
structure BackendMessage (major : Proto) where
  kind : UInt8
  contents : List UInt8
  legal : match major with
    | .v3 => contents.length + 4 < 2 ^ 31
    | .v2 => Terminated (terminates false) contents

namespace BackendMessage

variable {major : Proto} (m : BackendMessage major)

/-- The length word, which only protocol V3 has. -/
def word : List UInt8 :=
  match major with
  | .v3 => htonl (m.contents.length + 4)
  | .v2 => []

/-- The bytes after the kind. -/
def body : List UInt8 := m.word ++ m.contents

def bytes : List UInt8 := m.kind :: m.body

theorem length_word : m.word.length = if major = .v3 then 4 else 0 := by
  cases major <;> rfl

theorem length_bytes : m.bytes.length = 1 + m.word.length + m.contents.length := by
  unfold bytes body
  rw [List.length_cons, List.length_append]
  omega

end BackendMessage

namespace Stream

section

variable (fresh : Nat → UInt8) (major : Proto) (s : Stream)

/-- `pool_read` of a kind. -/
def readKind : Option (UInt8 × Stream) :=
  match s.poolRead fresh 1 with
  | some ([kind], s) => some (kind, s)
  | _ => none

/-- The rest of a message, by `pool_read` and `pool_read2`, which returns a null pointer as long as it
has no buffer, or by `pool_read_string`: the length word and the contents. -/
def readBody : Option (List UInt8 × List UInt8 × Stream) :=
  match major with
  | .v3 =>
    match s.poolRead fresh 4 with
    | none => none
    | some (word, s) =>
      match contentsSize word with
      | none => none
      | some len =>
        match s.poolRead2 len with
        | none => none
        | some (contents, s) => if s.cp.bufsz2 = 0 then none else some (word, contents, s)
  | .v2 =>
    match s.poolReadString fresh false with
    | none => none
    | some (string, s) => some ([], string, s)

end

/-- What comes next on a connection, which has a buffer for `pool_read2` from the parameters that the
backend has sent at its start. -/
structure Sends (major : Proto) (s : Stream) (bytes : List UInt8) : Prop where
  holds : s.Holds bytes
  buffer : major = .v3 → 0 < s.cp.bufsz2

variable {fresh : Nat → UInt8} {major : Proto} {s t : Stream} {data bytes : List UInt8} {kind : UInt8}

variable (fresh) in
theorem Sends.poolRead (h : s.Sends major (data ++ bytes)) {n : Nat} (hlen : data.length = n) :
    ∃ t, s.poolRead fresh n = some (data, t) ∧ t.Sends major bytes := by
  obtain ⟨t, ht, hrest, hbuf⟩ := h.holds.poolRead fresh hlen
  exact ⟨t, ht, hrest, fun hmajor => hbuf ▸ h.buffer hmajor⟩

variable (fresh) in
theorem Sends.readKind (h : s.Sends major (kind :: bytes)) :
    ∃ t, s.readKind fresh = some (kind, t) ∧ t.Sends major bytes := by
  have hahead : s.Sends major ([kind] ++ bytes) := h
  have hone : [kind].length = 1 := rfl
  obtain ⟨t, ht, hrest⟩ := hahead.poolRead fresh hone
  refine ⟨t, ?_, hrest⟩
  unfold Stream.readKind
  rw [ht]

variable (fresh) in
theorem Sends.readBody {m : BackendMessage major} (h : s.Sends major (m.body ++ bytes)) :
    ∃ t, s.readBody fresh major = some (m.word, m.contents, t) ∧ t.Sends major bytes := by
  obtain ⟨kind, contents, legal⟩ := m
  cases major with
  | v3 =>
    have hlegal : contents.length + 4 < 2 ^ 31 := legal
    have hahead : s.Sends .v3 (htonl (contents.length + 4) ++ (contents ++ bytes)) := by
      rw [← List.append_assoc]
      exact h
    have hsize : contentsSize (htonl (contents.length + 4)) = some contents.length := by
      unfold contentsSize
      rw [ntohl_htonl (by omega), if_pos (by omega)]
      rfl
    obtain ⟨t, ht, hrest⟩ := Sends.poolRead fresh hahead (length_htonl _)
    obtain ⟨u, hu, hrest', hbuf⟩ := hrest.holds.poolRead2 rfl
    have hpos : 0 < u.cp.bufsz2 := hbuf (hrest.buffer rfl)
    refine ⟨u, ?_, hrest', fun _ => hpos⟩
    unfold Stream.readBody
    simp only [ht, hsize, hu, if_neg (Nat.ne_of_gt hpos)]
    rfl
  | v2 =>
    have hahead : s.Holds (contents ++ bytes) := h.holds
    obtain ⟨t, ht, hrest⟩ := hahead.poolReadString fresh legal
    refine ⟨t, ?_, hrest, nofun⟩
    unfold Stream.readBody
    simp only [ht]
    rfl

end Stream

end PgPool
