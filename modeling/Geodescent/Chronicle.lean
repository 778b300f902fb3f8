/-!
Append-only sequences. `Chronicle.toList` lists the entries in the order in which they came.
-/
namespace Geodescent

structure Chronicle (β : Type) where
  newestFirst : List β

namespace Chronicle
variable {β : Type}

def empty : Chronicle β := ⟨[]⟩

instance : Inhabited (Chronicle β) := ⟨empty⟩

def toList (c : Chronicle β) : List β := c.newestFirst.reverse

def push (c : Chronicle β) (b : β) : Chronicle β := ⟨b :: c.newestFirst⟩

def ofList (bs : List β) : Chronicle β := ⟨bs.reverse⟩

@[simp] theorem toList_push (c : Chronicle β) (b : β) : (c.push b).toList = c.toList ++ [b] := by
  simp [toList, push]

end Chronicle
end Geodescent
