import Mathlib.Data.List.Induction
import Mathlib.Tactic.Common

set_option autoImplicit false

/-! # Coins along a chain

A chain is a list of blocks of growing height. Each block brings coins, and spends coins by their
hashes, its own included; hashes of unknown coins are passed over. `replay` is what a chain comes to.
To cut a chain at a height undoes the blocks from there on: what is left of its books are the coins
and spends below the height. -/

namespace Coins

/-- A block: `name` is how it is told apart from others of its height, `κ` what comes with a coin. -/
structure Block (β η κ : Type) where
  height : Int
  name : β
  found : List (η × κ)
  spent : List η

structure Coin (η κ : Type) where
  hash : η
  data : κ
  height : Int
deriving DecidableEq

structure Spend (η : Type) where
  hash : η
  height : Int
deriving DecidableEq

/-- All coins and all spends, in the order of their blocks. -/
@[ext]
structure Books (η κ : Type) where
  coins : List (Coin η κ)
  spends : List (Spend η)
deriving DecidableEq

section Cut

variable {β η κ : Type} {chain chain' : List (Block β η κ)} {r : Int}

def cut (r : Int) (chain : List (Block β η κ)) : List (Block β η κ) :=
  chain.filter (fun b => decide (b.height < r))

/-- A chain that goes on from the height of the cut. -/
theorem cut_append (hbelow : ∀ b ∈ chain, b.height < r) (habove : ∀ b ∈ chain', r ≤ b.height) :
    cut r (chain ++ chain') = chain := by
  have hleft : chain.filter (fun b => decide (b.height < r)) = chain :=
    List.filter_eq_self.mpr (fun b hb => by simpa using hbelow b hb)
  have hright : chain'.filter (fun b => decide (b.height < r)) = [] :=
    List.filter_eq_nil_iff.mpr (fun b hb => by simpa using habove b hb)
  unfold cut
  rw [List.filter_append, hleft, hright, List.append_nil]

end Cut

section Replay

variable {β η κ : Type} [DecidableEq η]

def Block.coins (b : Block β η κ) : List (Coin η κ) :=
  b.found.map (fun c => { hash := c.1, data := c.2, height := b.height })

namespace Books

/-- The books after one block more. -/
def push (s : Books η κ) (b : Block β η κ) : Books η κ where
  coins := s.coins ++ b.coins
  spends := s.spends ++ (b.spent.filter (fun h =>
    (s.coins ++ b.coins).any (fun c => c.hash == h))).map
      (fun h => { hash := h, height := b.height })

def below (s : Books η κ) (r : Int) : Books η κ where
  coins := s.coins.filter (fun c => decide (c.height < r))
  spends := s.spends.filter (fun x => decide (x.height < r))

/-- The coins whose hash no spend has. -/
def unspent (s : Books η κ) : List (Coin η κ) :=
  s.coins.filter (fun c => !s.spends.any (fun x => x.hash == c.hash))

end Books

def replay (chain : List (Block β η κ)) : Books η κ := chain.foldl Books.push ⟨[], []⟩

variable {chain : List (Block β η κ)} {b : Block β η κ} {s : Books η κ} {r : Int}

@[simp] theorem replay_nil : replay ([] : List (Block β η κ)) = ⟨[], []⟩ := rfl

@[simp] theorem replay_concat : replay (chain ++ [b]) = (replay chain).push b := by
  simp [replay]

/-- The books are about the blocks of the chain. -/
theorem height_of_mem_replay (chain : List (Block β η κ)) :
    (∀ c ∈ (replay chain).coins, ∃ b ∈ chain, c.height = b.height) ∧
      ∀ x ∈ (replay chain).spends, ∃ b ∈ chain, x.height = b.height := by
  induction chain using List.reverseRecOn with
  | nil => simp
  | append_singleton chain b ih =>
      obtain ⟨hcoins, hspends⟩ := ih
      rw [replay_concat]
      constructor
      · intro c hc
        rcases List.mem_append.mp hc with hc | hc
        · obtain ⟨b', hb', hheight⟩ := hcoins c hc
          exact ⟨b', List.mem_append_left _ hb', hheight⟩
        · obtain ⟨_, -, rfl⟩ := List.mem_map.mp hc
          exact ⟨b, by simp, rfl⟩
      · intro x hx
        rcases List.mem_append.mp hx with hx | hx
        · obtain ⟨b', hb', hheight⟩ := hspends x hx
          exact ⟨b', List.mem_append_left _ hb', hheight⟩
        · obtain ⟨_, -, rfl⟩ := List.mem_map.mp hx
          exact ⟨b, by simp, rfl⟩

/-- Nothing is cut off above the whole chain. -/
theorem below_replay_of_lt (h : ∀ b ∈ chain, b.height < r) :
    (replay chain).below r = replay chain := by
  obtain ⟨hcoins, hspends⟩ := height_of_mem_replay chain
  unfold Books.below
  congr 1
  · refine List.filter_eq_self.mpr (fun c hc => ?_)
    obtain ⟨b, hb, hheight⟩ := hcoins c hc
    simpa [hheight] using h b hb
  · refine List.filter_eq_self.mpr (fun x hx => ?_)
    obtain ⟨b, hb, hheight⟩ := hspends x hx
    simpa [hheight] using h b hb

/-- A block at or above the cut leaves nothing below it. -/
theorem below_push_of_le (h : r ≤ b.height) : (s.push b).below r = s.below r := by
  have hnot : ¬b.height < r := by omega
  unfold Books.below Books.push Block.coins
  simp [List.filter_append, List.filter_map, Function.comp_def, hnot]

/-- To cut the chain and replay it is to cut its books. -/
theorem replay_cut (h : chain.Pairwise (fun b b' => b.height < b'.height)) :
    replay (cut r chain) = (replay chain).below r := by
  induction chain using List.reverseRecOn with
  | nil => rfl
  | append_singleton chain b ih =>
      obtain ⟨hchain, -, hbelow⟩ := List.pairwise_append.mp h
      by_cases hb : b.height < r
      · -- all blocks before it are lower still
        have hall : ∀ b' ∈ chain ++ [b], b'.height < r := by
          intro b' hb'
          rcases List.mem_append.mp hb' with hb' | hb'
          · have hlower := hbelow b' hb' b (by simp)
            omega
          · obtain rfl := List.mem_singleton.mp hb'
            exact hb
        have hcut : cut r (chain ++ [b]) = chain ++ [b] :=
          List.filter_eq_self.mpr (fun b' hb' => by simpa using hall b' hb')
        rw [hcut, below_replay_of_lt hall]
      · have hcut : cut r (chain ++ [b]) = cut r chain := by simp [cut, hb]
        rw [hcut, ih hchain, replay_concat, below_push_of_le (by omega)]

end Replay

end Coins
