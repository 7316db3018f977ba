import GachaMind.Lib.FisherYates
import GachaMind.GameSession.Transitions

/-!
# The order of drawing

The order in which the players of a new game draw is the beginning of a shuffle. No order
is favoured: each one comes from the same number of the choices that `shuffle` makes.
-/

namespace GachaMind.GameSession
open GachaMind.Js GachaMind.Shared KeyedTable FisherYates

/-- The drawer of the running round and those who draw after it. -/
def drawingOrder (room : Room) : List Uuid := room.drawerId.toList ++ room.drawerQueue

/-- The random numbers of a handler are those that lead `shuffle` to the given choices. -/
def Env.choosing {n : ℕ} (env : Env) (c : Choices n) : Env := { env with random := c.toFun }

theorem shuffleLoop_eq {α : Type} (random : ℕ → ℕ) (i : ℕ) (a : Array α) :
    shuffleLoop random i a = swapDown (fun k => random k % (k + 1)) i a := by
  induction i generalizing a with
  | zero => rfl
  | succ i ih => exact ih _

theorem shuffle_toFun {α : Type} {items : List α} (c : Choices items.length) :
    shuffle c.toFun items = arrange c items := by
  have hc : (fun k => c.toFun k % (k + 1)) = c.toFun :=
    funext fun k => Nat.mod_eq_of_lt (Nat.lt_succ_of_le (c.toFun_le k))
  rw [shuffle, shuffleLoop_eq, hc]
  rfl

theorem beginGame_queue_subset (env : Env) (room : Room) :
    (room.beginGame env).drawerQueue ⊆ room.players.keys := fun _ hid =>
  (shuffle_perm env.random room.players.keys).subset (List.mem_of_mem_take hid)

theorem startGame_drawingOrder (env : Env) {room : Room} (hp : room.phase ≠ .playing)
    (hs : MIN_PLAYERS_TO_START ≤ room.size) :
    drawingOrder (startGame env room).1 =
      (shuffle env.random room.players.keys).take (min room.size MAX_ROUNDS) := by
  have hpos : 0 < (room.beginGame env).drawerQueue.length := by
    rw [Room.beginGame_queue_length]
    exact Room.beginGame_totalRounds_pos env hs
  obtain ⟨d, rest, hq⟩ := List.exists_cons_of_length_pos hpos
  have hmem : d ∈ (room.beginGame env).players.keys := by
    rw [Room.beginGame, Room.keys_resetScores]
    refine beginGame_queue_subset env room ?_
    rw [hq]
    exact List.mem_cons_self
  obtain ⟨drawer, hd, rfl⟩ := mem_keys.mp hmem
  have hhead : (room.beginGame env).drawerQueue.head? = some drawer.id := by rw [hq]; rfl
  rw [startGame_enough env room drawer hp hs hhead hd]
  show [drawer.id] ++ (room.beginGame env).drawerQueue.tail = (room.beginGame env).drawerQueue
  rw [hq]
  rfl

/-- Every sequence of as many present players as draw comes from the same number of the choices,
`(size - rounds)!` of `size!`. -/
theorem drawing_order_fair (env : Env) {room : Room} {order : List Uuid}
    (hp : room.phase ≠ .playing) (hs : MIN_PLAYERS_TO_START ≤ room.size) (hn : order.Nodup)
    (hsub : order ⊆ room.players.keys) (hlen : order.length = min room.size MAX_ROUNDS) :
    Nat.card (Choices room.players.keys.length) = room.size.factorial ∧
    Nat.card {c : Choices room.players.keys.length //
        drawingOrder (startGame (env.choosing c) room).1 = order} =
      (room.size - order.length).factorial := by
  have hsize : room.players.keys.length = room.size := length_keys room.players
  have hkeys : room.players.keys.Nodup := keys_nodup room.players
  constructor
  · rw [← hsize]
    exact card_choices hkeys
  · rw [← hsize, ← card_choices_from hkeys hn hsub]
    refine Nat.card_congr (Equiv.subtypeEquivRight fun c => ?_)
    rw [startGame_drawingOrder (env.choosing c) hp hs, ← hlen]
    show (shuffle c.toFun room.players.keys).take order.length = order ↔ _
    rw [shuffle_toFun]

/-- A room where players `0`, `1` and `2` wait. -/
def threeWaiting : Room :=
  ([0, 1, 2].map fun n => joiningPlayer (plainEnv n) n none (utf16 "a")).foldl seatPlayer
    (newRoom (utf16 "AB3DE") DEFAULT_ROOM_CAPACITY)

theorem drawing_order_fair_of_three :
    Nat.card (Choices threeWaiting.players.keys.length) = threeWaiting.size.factorial ∧
    Nat.card {c : Choices threeWaiting.players.keys.length //
        drawingOrder (startGame ((plainEnv 3).choosing c) threeWaiting).1 = [⟨2⟩, ⟨0⟩, ⟨1⟩]} =
      (threeWaiting.size - 3).factorial :=
  drawing_order_fair (plainEnv 3) (by decide) (by decide) (by decide) (by decide) (by decide)

end GachaMind.GameSession
