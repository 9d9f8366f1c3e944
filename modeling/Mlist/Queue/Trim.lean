import Mlist.Queue.Serve

/-!
# What `Resize` throws away

`Resize` makes the queue shorter with the `Pop` that `GetMessages` serves from, and `Pop`
takes the item that is due next. So what goes is what the queue would have sent first — the
messages sent least often, the newest of them before the others — and what stays is what it
would have sent last (`Resized.popped`). Only where nothing has to go, or nothing may stay,
does it keep the items it should (`resize_keeps_first_iff`).
-/

namespace Mlist

open Mlist.Lib

variable {H μ : Type} [Encoded μ] [Heap H (TransmitCapItem μ)]

namespace TransmitCapQueue

variable {q q' : TransmitCapQueue H μ} {size : Nat} {dropped : List (TransmitCapItem μ)}

/-- What is dropped comes before what is kept, strictly. -/
theorem Resized.less (h : Resized size q q' dropped) (hinv : q.QueueInv)
    {d it : TransmitCapItem μ} (hd : d ∈ dropped) (hit : it ∈ q'.items) : d.less it = true := by
  have hids : ((dropped ++ q'.items).map (·.id)).Nodup :=
    ((h.items.map _).nodup_iff).mp hinv.ids
  rw [List.map_append] at hids
  have hne : d.id ≠ it.id := (List.nodup_append.mp hids).2.2 _ (List.mem_map_of_mem hd) _
    (List.mem_map_of_mem hit)
  exact TransmitCapItem.less_of_ne (h.popped d hd it hit) hne

/-- Something is dropped and something is kept, exactly if the size is between. -/
theorem Resized.both (h : Resized size q q' dropped) :
    (dropped ≠ [] ∧ q'.items ≠ []) ↔ size ≠ 0 ∧ size < q.items.length := by
  have hsum : q.items.length = dropped.length + q'.items.length := by
    rw [h.items.length_eq, List.length_append]
  have hlen := h.length
  rw [← List.length_pos_iff, ← List.length_pos_iff]
  omega

/-- **When `Resize` keeps what is due first.** For every queue and every size that is not
negative, it returns with as many items as there were, or with `size` of them, and has called
`Finish` on each item it dropped. None of the items it kept comes before one it dropped. And
of a queue in order no kept item comes after a dropped one exactly if nothing was to be kept
or nothing to be dropped. -/
theorem resize_keeps_first_iff (q : TransmitCapQueue H μ) (size : Nat) :
    ∃ q' dropped, q.resize size = some q' ∧ q'.len = min size q.len ∧
      q.items.Perm (dropped ++ q'.items) ∧ q'.finished = q.finished ++ dropped ∧
      (∀ d ∈ dropped, ∀ it ∈ q'.items, it.less d = false) ∧
      (q.QueueInv → ((∀ d ∈ dropped, ∀ it ∈ q'.items, d.less it = false) ↔
        size = 0 ∨ q.len ≤ size)) := by
  obtain ⟨q', dropped, hres, hspec⟩ := resize_spec size q
  refine ⟨q', dropped, hres, ?_, hspec.items, hspec.finished, hspec.popped, fun hinv => ?_⟩
  · rw [len_eq, len_eq]
    exact hspec.length
  · rw [len_eq]
    have hboth := hspec.both
    constructor
    · intro hfirst
      have hnot : ¬ (dropped ≠ [] ∧ q'.items ≠ []) := by
        rintro ⟨hd, hk⟩
        obtain ⟨d, hd⟩ := List.exists_mem_of_ne_nil _ hd
        obtain ⟨it, hit⟩ := List.exists_mem_of_ne_nil _ hk
        exact nomatch (hfirst d hd it hit).symm.trans (hspec.less hinv hd hit)
      rw [hboth] at hnot
      omega
    · intro hsize d hd it hit
      have hmid := hboth.mp ⟨List.ne_nil_of_mem hd, List.ne_nil_of_mem hit⟩
      omega

end TransmitCapQueue

namespace Concrete

/-- Of the two messages the newer one has been sent once. -/
def halfSent : TransmitCapQueue (List (TransmitCapItem Msg)) Msg := (twoDead.getMessages 3 2 40).2

theorem halfSent_inv : halfSent.QueueInv := TransmitCapQueue.getMessages_inv twoDead_inv 3 2 40

end Concrete

open Concrete in
/-- There is room for both messages. -/
theorem resize_keeps_first_iff_room :
    ∃ q' dropped, halfSent.resize 2 = some q' ∧
      q'.finished = halfSent.finished ++ dropped ∧
      ∀ d ∈ dropped, ∀ it ∈ q'.items, d.less it = false := by
  obtain ⟨q', dropped, hres, -, -, hfin, -, hiff⟩ :=
    TransmitCapQueue.resize_keeps_first_iff halfSent 2
  exact ⟨q', dropped, hres, hfin, (hiff halfSent_inv).mpr (.inr (by decide +kernel))⟩

open Concrete in
/-- There is room for one: the message that has been sent is kept, the one that has not is
thrown away. -/
theorem resize_drops_unsent :
    let unsent : TransmitCapItem Msg := ⟨"a", 0, 0, .dead ⟨1, "a", false⟩, none⟩
    let sent : TransmitCapItem Msg := ⟨"b", 1, 1, .dead ⟨1, "b", false⟩, none⟩
    (halfSent.items, halfSent.finished) = ([sent, unsent], []) ∧
      (halfSent.resize 1).map (fun q' => (q'.items, q'.finished)) = some ([sent], [unsent]) ∧
      unsent.less sent = true := by
  decide +kernel

end Mlist
