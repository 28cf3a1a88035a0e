import EvalRun.Proofs.Ranking.Padding
import EvalRun.Topics.Source
import Mathlib.Data.List.Nodup

/-! # Proofs.Topics.Joining — one topic for every id

    Joining topics by their ids leaves one for every id, in the order in which
    the ids first occur (`Source.map_id_ofRaw`).
-/

namespace EvalRun.Topics

/-! ### First occurrences -/

/-- An id behind others is a new one or is dropped. -/
theorem eraseDups_concat (ids : List String) (id : String) :
    (ids ++ [id]).eraseDups = if id ∈ ids then ids.eraseDups else ids.eraseDups ++ [id] := by
  rw [List.eraseDups_append]
  by_cases hid : id ∈ ids
  · simp [List.removeAll, hid]
  · simp [List.removeAll, hid, List.eraseDups_cons]

/-- Of two different elements of a list, the one that stands first occurs
    first. -/
theorem pairwise_idxOf_eraseDups (ids : List String) :
    ids.eraseDups.Pairwise fun a b => ids.idxOf a < ids.idxOf b := by
  induction ids using List.reverseRecOn with
  | nil => simp
  | append_singleton earlier id ih =>
    have hidx {a : String} (ha : a ∈ earlier) : (earlier ++ [id]).idxOf a = earlier.idxOf a := by
      rw [List.idxOf_append, if_pos ha]
    have hkept : earlier.eraseDups.Pairwise fun a b =>
        (earlier ++ [id]).idxOf a < (earlier ++ [id]).idxOf b := by
      apply ih.imp_of_mem
      intro a b ha hb hlt
      rw [hidx (List.mem_eraseDups.1 ha), hidx (List.mem_eraseDups.1 hb)]
      exact hlt
    rw [eraseDups_concat]
    split
    · exact hkept
    · rename_i hid
      rw [List.pairwise_append]
      refine ⟨hkept, List.pairwise_singleton _ id, ?_⟩
      intro a ha b hb
      obtain rfl : b = id := List.mem_singleton.1 hb
      -- the new id stands behind the whole list
      have hlt := List.idxOf_lt_length_of_mem (List.mem_eraseDups.1 ha)
      rw [hidx (List.mem_eraseDups.1 ha), List.idxOf_append, if_neg hid]
      omega

/-! ### Joined topics -/

/-- A topic that joins others adds its id behind theirs, if it is a new one. -/
theorem map_id_joinTopic (topic : Topic) (topics : List Topic) :
    (joinTopic topic topics).map (·.id) =
      if topic.id ∈ topics.map (·.id) then topics.map (·.id)
      else topics.map (·.id) ++ [topic.id] := by
  induction topics with
  | nil => rfl
  | cons other rest ih =>
    unfold joinTopic
    by_cases hid : other.id = topic.id
    · simp [hid]
    · have hne : ¬ topic.id = other.id := fun h => hid h.symm
      rw [if_neg hid, List.map_cons, ih]
      by_cases hmem : topic.id ∈ rest.map (·.id)
      · simp only [List.map_cons, List.mem_cons, hmem, or_true, if_true]
      · simp only [List.map_cons, List.mem_cons, hne, hmem, or_self, if_false, List.cons_append]

/-- The ids of joined topics are the different ids, in the order in which they
    first occur. -/
theorem Source.map_id_ofTopics (topics : List Topic) :
    (ofTopics topics).topics.map (·.id) = (topics.map (·.id)).eraseDups := by
  unfold ofTopics
  -- the last topic joins those that the topics before it were joined to
  induction topics using List.reverseRecOn with
  | nil => rfl
  | append_singleton earlier topic ih =>
    rw [List.foldl_concat, map_id_joinTopic, ih, List.map_append, List.map_singleton,
      eraseDups_concat]
    simp only [List.mem_eraseDups]

/-- The ids of the topics of a run are those of the raw topics, each once, in
    the order in which they first occur. -/
theorem Source.map_id_ofRaw (policy : VariantPolicy) (raws : List RawTopic) :
    (ofRaw policy raws).topics.map (·.id) = (raws.map (·.id)).eraseDups := by
  unfold ofRaw
  rw [map_id_ofTopics, List.map_map]
  rfl

end EvalRun.Topics
