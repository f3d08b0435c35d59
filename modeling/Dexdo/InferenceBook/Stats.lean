import Dexdo.Oracle.Network

namespace Dexdo

namespace ReferencePrice

variable (s : ReferencePrice)

/-- Slot of the day last traded on. -/
def current : DayData := s.daily.read s.curSlot

/-- Volume recorded so far for the day of `now`. -/
def volumeOn (now : ℕ) : ℕ := if s.current.day = now / SECS_PER_DAY then s.current.volSum else 0

@[simp] theorem finalizedSeen_recordTrade (now price ticks : ℕ) :
    (s.recordTrade now price ticks).finalizedSeen = s.finalizedSeen := by
  unfold recordTrade
  dsimp only
  split_ifs <;> rfl

theorem current_recordTrade (now price ticks : ℕ) :
    (s.recordTrade now price ticks).current =
      if s.current.day = now / SECS_PER_DAY then
        ⟨s.current.day, s.current.priceVolSum + price * ticks, s.current.volSum + ticks⟩
      else ⟨now / SECS_PER_DAY, price * ticks, ticks⟩ := by
  unfold recordTrade current
  dsimp only
  by_cases h : (s.daily.read s.curSlot).day = now / SECS_PER_DAY
  · simp [h]
  · simp [h]

theorem volumeOn_recordTrade (now price ticks : ℕ) :
    (s.recordTrade now price ticks).volumeOn now = s.volumeOn now + ticks := by
  unfold volumeOn
  rw [current_recordTrade]
  split_ifs with h
  · rfl
  · exact (Nat.zero_add _).symm
  · contradiction

section Reports

variable (a b now price n : ℕ)

theorem seen_reportFinalized :
    (s.reportFinalized (.deal a b) now a b price n).finalizedSeen (.deal a b) =
      max (s.finalizedSeen (.deal a b)) n := by
  unfold reportFinalized
  rw [if_neg (not_not_intro rfl)]
  dsimp only
  split_ifs with hn
  · exact (max_eq_left hn).symm
  · rw [finalizedSeen_recordTrade]
    change Function.update _ _ _ _ = _
    rw [Function.update_self]
    exact (max_eq_right (Nat.le_of_lt (not_le.mp hn))).symm

theorem seen_other {sender x : Addr} (h : x ≠ sender) :
    (s.reportFinalized sender now a b price n).finalizedSeen x = s.finalizedSeen x := by
  unfold reportFinalized
  split_ifs
  · rfl
  · dsimp only
    split_ifs
    · rfl
    · rw [finalizedSeen_recordTrade]
      exact Function.update_of_ne h ..

theorem volumeOn_reportFinalized :
    (s.reportFinalized (.deal a b) now a b price n).volumeOn now + s.finalizedSeen (.deal a b) =
      s.volumeOn now + (s.reportFinalized (.deal a b) now a b price n).finalizedSeen (.deal a b) := by
  rw [seen_reportFinalized]
  unfold reportFinalized
  rw [if_neg (not_not_intro rfl)]
  dsimp only
  split_ifs with hn
  · rw [max_eq_left hn]
  · rw [volumeOn_recordTrade]
    change s.volumeOn now + (n - _) + _ = _
    rw [max_eq_right (Nat.le_of_lt (not_le.mp hn))]
    omega

end Reports

end ReferencePrice

end Dexdo
