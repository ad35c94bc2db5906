import ClassAtlas.Workspace.Session
import Mathlib.Data.List.Basic

/-!
Libraries that are removed or moved in place, one step after the other. Whatever can fail comes before
the first change, and so a failure leaves the workspace as it was.
-/

namespace ClassAtlas

/-- Changes of a workspace in place. What was changed before a failure stays changed. -/
abbrev Rework := ExceptT Error (StateM Workspace)

namespace Rework

def takeOut (i : Nat) : Rework Unit :=
  modify fun w => { w with libraries := w.libraries.eraseIdx i }

def putIn (i : Nat) (l : Layer) : Rework Unit :=
  modify fun w => { w with libraries := w.libraries.insertIdx i l }

def dropGraphs : Rework Unit :=
  modify Workspace.invalidate

def removeLibrary (name : String) : Rework Layer := do
  let libraries := (← get).libraries
  match libraries.findFinIdx? (·.name == name) with
  | none => throw (.layerNotFound (.unnamed name))
  | some i =>
    takeOut i
    dropGraphs
    return libraries[i]

def moveLibrary (source target : Nat) : Rework Unit := do
  let libraries := (← get).libraries
  if h : source < libraries.length ∧ target < libraries.length then
    takeOut source
    putIn target libraries[source]
    dropGraphs
  else throw (.layerNotFound (.position source target libraries.length))

/-- The outcome of a change that either fails or leads to another workspace. -/
def outcome {α : Type} (w : Workspace) : Except Error (α × Workspace) → Except Error α × Workspace
  | .ok (a, w') => (.ok a, w')
  | .error e => (.error e, w)

theorem get_bind_run {α : Type} (f : Workspace → Rework α) (w : Workspace) :
    (get >>= f).run.run w = (f w).run.run w :=
  rfl

theorem removeLibrary_run (w : Workspace) (name : String) :
    (removeLibrary name).run.run w = outcome w (w.removeLibrary name) := by
  rw [removeLibrary, get_bind_run, Workspace.removeLibrary, List.eraseP_eq_eraseIdx,
    List.findIdx?_eq_map_findFinIdx?_val]
  cases hplace : w.libraries.findFinIdx? (·.name == name) with
  | none =>
    rw [List.find?_eq_none.mpr (List.findFinIdx?_eq_none_iff.mp hplace)]
    simp only [hplace]
    rfl
  | some i =>
    obtain ⟨hname, hfirst⟩ := List.findFinIdx?_eq_some_iff.mp hplace
    have hfind : w.libraries.find? (·.name == name) = some w.libraries[i] :=
      List.find?_eq_some_iff_getElem.mpr ⟨hname, i, i.isLt, rfl, fun j hj => by
        simpa using hfirst ⟨j, Nat.lt_trans hj i.isLt⟩ hj⟩
    rw [hfind]
    simp only [hplace]
    rfl

theorem moveLibrary_run (w : Workspace) (source target : Nat) :
    (moveLibrary source target).run.run w =
      outcome w ((w.moveLibrary source target).map fun w' => ((), w')) := by
  rw [moveLibrary, get_bind_run, Workspace.moveLibrary]
  by_cases hsource : source < w.libraries.length
  · rw [List.getElem?_eq_getElem hsource]
    by_cases htarget : target < w.libraries.length
    · rw [dif_pos ⟨hsource, htarget⟩]
      simp only [if_pos htarget]
      rfl
    · rw [dif_neg fun h => htarget h.2]
      simp only [if_neg htarget]
      rfl
  · rw [List.getElem?_eq_none (Nat.le_of_not_lt hsource), dif_neg fun h => hsource h.1]
    rfl

end Rework

end ClassAtlas
