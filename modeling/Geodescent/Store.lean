/-!
Memory cells addressed by number. A cell that was never written holds the default, and writing one
cell changes no other.
-/
namespace Geodescent

structure Store (β : Type) where
  cells : List (Nat × β)

namespace Store
variable {β : Type}

def empty : Store β := ⟨[]⟩

instance : Inhabited (Store β) := ⟨empty⟩

def find (i : Nat) (fallback : β) : List (Nat × β) → β
  | [] => fallback
  | (j, b) :: rest => if j = i then b else find i fallback rest

def put (i : Nat) (b : β) : List (Nat × β) → List (Nat × β)
  | [] => [(i, b)]
  | (j, c) :: rest => if j = i then (j, b) :: rest else (j, c) :: put i b rest

theorem find_put (i j : Nat) (b fallback : β) (cells : List (Nat × β)) :
    find j fallback (put i b cells) = if i = j then b else find j fallback cells := by
  induction cells with
  | nil => simp [find, put]
  | cons cell rest ih => grind [find, put]

def get [Inhabited β] (s : Store β) (i : Nat) : β := find i default s.cells

def set (s : Store β) (i : Nat) (b : β) : Store β := ⟨put i b s.cells⟩

variable [Inhabited β]

theorem get_set (s : Store β) (i j : Nat) (b : β) :
    (s.set i b).get j = if i = j then b else s.get j := find_put i j b default s.cells

@[simp] theorem get_set_self (s : Store β) (i : Nat) (b : β) : (s.set i b).get i = b := by
  simp [get_set]

theorem get_set_of_ne (s : Store β) {i j : Nat} (h : i ≠ j) (b : β) :
    (s.set i b).get j = s.get j := by
  simp [get_set, h]

end Store
end Geodescent
