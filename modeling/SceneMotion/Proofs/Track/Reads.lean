import SceneMotion.Proofs.Track.Ledger

namespace SceneMotion

variable {α : Type} [Scalar α]

namespace Motion

theorem mem_joinNames {a b : List Text} : name ∈ joinNames a b ↔ name ∈ a ∨ name ∈ b := by
  rw [joinNames, List.mem_eraseDups, List.mem_append]

theorem mem_reads_iff {m : Motion α} : name ∈ m.reads ↔
    (∃ offset, m = entity name offset) ∨ ∃ x ∈ m.parts, name ∈ x.reads := by
  cases m <;> simp [reads, parts, mem_joinNames, eq_comm]

-- A motion depends on the frames of those that it reads, and of nobody else.
theorem frameAt_congr {frameOf frameOf' : Text → Option (Frame α)} {motion : Motion α} {t : α}
    (h : ∀ name ∈ motion.reads, frameOf name = frameOf' name) :
    motion.frameAt frameOf t = motion.frameAt frameOf' t := by
  induction motion generalizing t <;> simp only [reads, mem_joinNames] at h <;> simp only [frameAt]
  case entity         => rw [h _ (List.mem_singleton_self _)]
  case transform a b  => rw [a fun n hn => h n (.inr hn), b fun n hn => h n (.inl hn)]
  case combine a b    => rw [a fun n hn => h n (.inr hn), b fun n hn => h n (.inl hn)]
  case lookAt a b     => rw [a fun n hn => h n (.inr hn), b fun n hn => h n (.inl hn)]
  case timeShift hi   => exact hi h
  case shared hi      => exact hi h

end Motion

theorem Track.frameAt_congr {frameOf frameOf' : Text → Option (Frame α)} {track : Track α} {t : α}
    (h : ∀ name ∈ track.reads, frameOf name = frameOf' name) :
    track.frameAt frameOf t = track.frameAt frameOf' t :=
  Motion.frameAt_congr fun name hn => h name (track.reads_eq ▸ hn)

namespace Track

variable {owner : Text}

-- A motion reads what has been noted.
def readsNoted : Ledger α (List Text) where
  Grows names names' := names ⊆ names'
  Fits names n       := n.mentioned = names
  Holds names m      := m.reads ⊆ names
  refl _             := List.Subset.refl _
  trans              := List.Subset.trans
  mono hs hm         := List.Subset.trans hm hs
  node {m _} _ hk hp := by
    intro name hn
    rcases Motion.mem_reads_iff.mp hn with ⟨_, rfl⟩ | ⟨x, hx, hn⟩
    · exact absurd rfl hk
    · exact hp x hx hn
  entity h := ⟨_, h ▸ List.subset_append_left .., rfl, fun _ => List.subset_append_right ..⟩
  shared h hm := ⟨_, List.Subset.refl _, h, hm⟩

-- What has been compiled reads what has been mentioned.
theorem ofExpr_reads {e : Expr α} {track : Track α} (h : (ofExpr owner e).result = .ok track) :
    track.reads ⊆ (ofExpr owner e).mentioned := by
  obtain ⟨_, names, n, _, hn, hm, ho⟩ := readsNoted.ofExpr_keeps rfl owner e
  obtain ⟨m, hr, hc⟩ := ho track h
  rw [track.reads_eq, hc, Motion.reads_core, ← hm, hn]
  exact hr

theorem ofValue_reads {v : Value α} {track : Track α} (h : (ofValue owner v).result = .ok track) :
    track.reads ⊆ (ofValue owner v).mentioned := by
  rw [ofValue] at h ⊢
  split at h
  case h_1 he => exact ofExpr_reads h
  case h_2    => contradiction
  case h_3    => contradiction

end Track
end SceneMotion
