import Mathlib.Data.Finset.Union
import Transclusion.Proofs.Cache.Recency

namespace Transclusion.Cache

variable {c : Cache} {k : Directive.Identity} {ks : Finset Directive.Identity}

theorem toFinset_keys_touch (c : Cache) (k : Directive.Identity) (e : Included) :
    (c.touch k e).keys.toFinset = insert k c.keys.toFinset := by
  ext x
  simp only [keys_touch, List.mem_toFinset, List.mem_append, List.mem_filter, List.mem_singleton,
    Finset.mem_insert, bne_iff_ne]
  tauto

theorem nodup_keys_touch (h : c.keys.Nodup) (k : Directive.Identity) (e : Included) :
    (c.touch k e).keys.Nodup := by
  rw [keys_touch]
  refine List.Nodup.append (h.filter _) (List.nodup_singleton k) ?_
  simp

-- There is space for the keys, next to those that are kept already.
structure HasRoom (c : Cache) (ks : Finset Directive.Identity) : Prop where
  nodup : c.keys.Nodup
  card_le : (c.keys.toFinset ∪ ks).card ≤ c.capacity

theorem HasRoom.of_empty (h : c.entries = []) (hk : ks.card ≤ c.capacity) : c.HasRoom ks := by
  constructor <;> simp [keys_of_empty h, hk]

theorem HasRoom.touch (h : c.HasRoom (insert k ks)) (e : Included) : (c.touch k e).HasRoom ks where
  nodup := nodup_keys_touch h.nodup k e
  card_le := by
    rw [toFinset_keys_touch, Finset.insert_union, ←Finset.union_insert]
    exact h.card_le

-- With space for a new key, none has to leave.
theorem HasRoom.put_eq_touch {d : Directive} (h : c.HasRoom (insert d.identity ks)) (e : Included)
    (hk : d.identity ∉ c.keys) : c.put d e = c.touch d.identity e := by
  have hl : c.length < c.capacity := by
    have hs : insert d.identity c.keys.toFinset ⊆ c.keys.toFinset ∪ insert d.identity ks := by
      intro x hx
      simp only [Finset.mem_insert, Finset.mem_union] at hx ⊢
      tauto
    have hc := (Finset.card_le_card hs).trans h.card_le
    rw [Finset.card_insert_of_notMem (by simpa using hk), List.toFinset_card_of_nodup h.nodup] at hc
    rwa [length_eq_length_keys]
  rw [put, makeRoom, if_neg]
  simp [hl]

end Transclusion.Cache
