/-
Receive buffers that grow on request: a sender knows a limit, and before a packet that is longer it sends a request
for a larger buffer on the same channel, which keeps the order, and from then on counts on it without an answer.
What is in flight then fits the buffer it meets, and the limit is never above what the buffer will hold.
-/
import Mathlib.Tactic

namespace ParallelProbsat.Lib

variable {α : Type}

/-- What the channel carries: a request for a buffer of that size, or a packet of that size. -/
inductive Packet (α : Type)
  | request (n : Nat)
  | data (size : Nat) (content : α)
  deriving DecidableEq

namespace Packet

/-- The size of a packet on the channel, where a request takes `r`. -/
def size (r : Nat) : Packet α → Nat
  | .request _ => r
  | .data n _ => n

/-- What the packets carry. -/
def contents : List (Packet α) → List α
  | [] => []
  | .request _ :: rest => contents rest
  | .data _ content :: rest => content :: contents rest

/-- The least capacity the buffer has once what is in flight was received. -/
def after (capacity : Nat) : List (Packet α) → Nat
  | [] => capacity
  | .request n :: rest => after (max capacity n) rest
  | .data _ _ :: rest => after capacity rest

/-- Every packet in flight fits the buffer when its turn comes. -/
def Fits (r capacity : Nat) : List (Packet α) → Prop
  | [] => True
  | .request n :: rest => r ≤ capacity ∧ Fits r (max capacity n) rest
  | .data s _ :: rest => s ≤ capacity ∧ Fits r capacity rest

variable {r c c' : Nat}

theorem contents_append : ∀ ms ms' : List (Packet α), contents (ms ++ ms') = contents ms ++ contents ms'
  | [], _ => rfl
  | .request _ :: rest, ms' => contents_append rest ms'
  | .data _ content :: rest, ms' => congrArg (content :: ·) (contents_append rest ms')

theorem after_mono : ∀ {c c' : Nat} (ms : List (Packet α)), c ≤ c' → after c ms ≤ after c' ms
  | _, _, [], h => h
  | _, _, .request n :: rest, h => after_mono rest (max_le_max_right n h)
  | _, _, .data _ _ :: rest, h => after_mono rest h

theorem Fits.mono : ∀ {c c' : Nat} {ms : List (Packet α)}, c ≤ c' → Fits r c ms → Fits r c' ms
  | _, _, [], _, _ => trivial
  | _, _, .request n :: _, hc, h => ⟨h.1.trans hc, h.2.mono (max_le_max_right n hc)⟩
  | _, _, .data _ _ :: _, hc, h => ⟨h.1.trans hc, h.2.mono hc⟩

theorem after_request (n : Nat) : ∀ (c : Nat) (ms : List (Packet α)), after c (ms ++ [.request n]) = max (after c ms) n
  | _, [] => rfl
  | _, .request _ :: rest => after_request n _ rest
  | _, .data _ _ :: rest => after_request n _ rest

theorem after_data (s : Nat) (a : α) : ∀ (c : Nat) (ms : List (Packet α)), after c (ms ++ [.data s a]) = after c ms
  | _, [] => rfl
  | _, .request _ :: rest => after_data s a _ rest
  | _, .data _ _ :: rest => after_data s a _ rest

/-- One more packet fits if it fits what the buffer will be. -/
theorem Fits.snoc {p : Packet α} : ∀ {c : Nat} {ms : List (Packet α)}, Fits r c ms → p.size r ≤ after c ms →
    Fits r c (ms ++ [p])
  | c, [], _, hp => by
    cases p with
    | request n => exact ⟨hp, trivial⟩
    | data s a => exact ⟨hp, trivial⟩
  | _, .request _ :: _, h, hp => ⟨h.1, h.2.snoc hp⟩
  | _, .data _ _ :: _, h, hp => ⟨h.1, h.2.snoc hp⟩

/-- The first packet in flight fits the buffer as it is. -/
theorem Fits.head {p : Packet α} {rest : List (Packet α)} (h : Fits r c (p :: rest)) : p.size r ≤ c := by
  cases p with
  | request n => exact h.1
  | data s a => exact h.1

end Packet

open Packet

/-- The sender's limit, the receiver's buffer and what is in flight between them agree. -/
structure Negotiated (r limit capacity : Nat) (inFlight : List (Packet α)) : Prop where
  request : r ≤ limit
  limit : limit ≤ after capacity inFlight
  fits : Fits r capacity inFlight

namespace Negotiated

variable {r limit capacity capacity' n : Nat} {ms : List (Packet α)}

theorem start (hr : r ≤ limit) (hl : limit ≤ capacity) : Negotiated r limit capacity ([] : List (Packet α)) :=
  ⟨hr, hl, trivial⟩

/-- The sender asks for a larger buffer and counts on it. -/
theorem ask (h : Negotiated r limit capacity ms) (hn : limit ≤ n) : Negotiated r n capacity (ms ++ [.request n]) where
  request := h.request.trans hn
  limit := (after_request n capacity ms) ▸ le_max_right _ _
  fits := h.fits.snoc (h.request.trans h.limit)

/-- It sends a packet within its limit. -/
theorem push {a : α} (h : Negotiated r limit capacity ms) (hn : n ≤ limit) :
    Negotiated r limit capacity (ms ++ [.data n a]) where
  request := h.request
  limit := (after_data n a capacity ms) ▸ h.limit
  fits := h.fits.snoc (hn.trans h.limit)

/-- The receiver enlarges the buffer of its own accord. -/
theorem grow (h : Negotiated r limit capacity ms) (hc : capacity ≤ capacity') : Negotiated r limit capacity' ms where
  request := h.request
  limit := h.limit.trans (after_mono ms hc)
  fits := h.fits.mono hc

/-- It receives a request and grants it. -/
theorem grant (h : Negotiated r limit capacity (.request n :: ms)) (hc : max capacity n ≤ capacity') :
    Negotiated r limit capacity' ms where
  request := h.request
  limit := h.limit.trans (after_mono ms hc)
  fits := h.fits.2.mono hc

/-- It receives a packet. -/
theorem take {a : α} (h : Negotiated r limit capacity (.data n a :: ms)) : Negotiated r limit capacity ms where
  request := h.request
  limit := h.limit
  fits := h.fits.2

end Negotiated

end ParallelProbsat.Lib
