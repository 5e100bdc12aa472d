import LosslessAudio.Channel

/-!
# Rounds over the channels

Audio commands go round the channels: the first decodes a block of the first channel, the next one
of the second, until every channel has its block and the round starts over.  `Round` holds the
histories of all channels together with the place of the round: the channels whose block is done,
the one whose block comes next, and those that wait.
-/

set_option autoImplicit false

namespace LosslessAudio

/-- The histories of all channels, and whose turn it is. -/
structure Round where
  /-- The channels that have their block, the first channel first. -/
  done : List ChannelHistory
  /-- The channel whose block comes next. -/
  current : ChannelHistory
  /-- The channels after that. -/
  waiting : List ChannelHistory
  deriving DecidableEq, Repr

namespace Round

/-- The start of the first round over `channels` channels, of which there is at least one. -/
def start (channels : Nat) (h : ChannelHistory) : Round :=
  ⟨[], h, List.replicate (channels - 1) h⟩

/-- The histories of all channels, the first channel first. -/
def channels (round : Round) : List ChannelHistory :=
  round.done ++ round.current :: round.waiting

/-- The number of the channel whose block comes next. -/
def index (round : Round) : Nat :=
  round.done.length

/-- Whether this is the turn of the last channel. -/
def isLast (round : Round) : Bool :=
  round.waiting.isEmpty

/-- Replaces the history of the current channel by `h` and passes the turn on, from the last
channel back to the first. -/
def next (round : Round) (h : ChannelHistory) : Round :=
  match round.waiting, round.done with
  | following :: waiting, done => ⟨done ++ [h], following, waiting⟩
  | [], [] => ⟨[], h, []⟩
  | [], first :: others => ⟨[], first, others ++ [h]⟩

theorem channels_next (round : Round) (h : ChannelHistory) :
    (round.next h).channels = round.done ++ h :: round.waiting := by
  obtain ⟨done, current, waiting⟩ := round
  cases waiting with
  | cons following waiting => simp [next, channels]
  | nil => cases done <;> simp [next, channels]

theorem index_lt_length_channels (round : Round) : round.index < round.channels.length := by
  simp only [index, channels, List.length_append, List.length_cons]
  omega

theorem length_channels_start {channels : Nat} (hc : 0 < channels) (h : ChannelHistory) :
    (start channels h).channels.length = channels := by
  simp only [start, Round.channels, List.nil_append, List.length_cons, List.length_replicate]
  omega

/-- The turn goes on to the next channel, and from the last one back to the first. -/
theorem done_next (round : Round) (h : ChannelHistory) :
    (round.next h).done = if round.isLast then [] else round.done ++ [h] := by
  obtain ⟨done, current, waiting⟩ := round
  cases waiting with
  | cons following waiting => rfl
  | nil => cases done <;> rfl

theorem index_next (round : Round) (h : ChannelHistory) :
    (round.next h).index = if round.isLast then 0 else round.index + 1 := by
  rw [index, done_next]
  split
  · rfl
  · exact List.length_append

theorem isLast_iff (round : Round) :
    round.isLast = true ↔ round.index + 1 = round.channels.length := by
  rw [isLast, List.isEmpty_iff, ← List.length_eq_zero_iff, index, channels, List.length_append,
    List.length_cons]
  omega

theorem getElem?_channels_index (round : Round) :
    round.channels[round.index]? = some round.current := by
  rw [channels, index, List.getElem?_append_right (Nat.le_refl _), Nat.sub_self]
  rfl

theorem current_mem_channels (round : Round) : round.current ∈ round.channels :=
  List.mem_of_getElem? round.getElem?_channels_index

/-- No history but that of the current channel is touched. -/
theorem getElem?_channels_next (round : Round) (h : ChannelHistory) (c : Nat) :
    (round.next h).channels[c]? = if c = round.index then some h else round.channels[c]? := by
  rw [channels_next, channels, index]
  split
  · rename_i hc
    rw [hc, List.getElem?_append_right (Nat.le_refl _), Nat.sub_self]
    rfl
  · rename_i hc
    rcases Nat.lt_or_gt_of_ne hc with hlt | hgt
    · rw [List.getElem?_append_left hlt, List.getElem?_append_left hlt]
    · rw [List.getElem?_append_right (Nat.le_of_lt hgt),
        List.getElem?_append_right (Nat.le_of_lt hgt)]
      obtain ⟨n, hn⟩ : ∃ n, c - round.done.length = n + 1 := ⟨_, (Nat.succ_pred (by omega)).symm⟩
      rw [hn, List.getElem?_cons_succ, List.getElem?_cons_succ]

theorem length_channels_next (round : Round) (h : ChannelHistory) :
    (round.next h).channels.length = round.channels.length := by
  rw [channels_next, channels, List.length_append, List.length_append, List.length_cons,
    List.length_cons]

end Round

end LosslessAudio
