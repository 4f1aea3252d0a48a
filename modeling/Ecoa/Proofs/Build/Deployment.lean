import Ecoa.Proofs.Deployment.Placement
import Mathlib.Data.List.Perm.Basic

/-!
# Deployments that agree

The order of protection domains is of no account but for the order in which module instances are
deployed: the same module instances run under the same component instances.
-/

namespace Ecoa

/-- Computations of the same elements in another order succeed, with the same results. -/
theorem mapM_ok_of_perm {ε α β : Type} {f : α → Except ε β} {xs ys : List α} {as : List β}
    (h : xs.Perm ys) (hxs : xs.mapM f = .ok as) : ∃ bs, ys.mapM f = .ok bs ∧ as.Perm bs := by
  obtain ⟨bs, hys, hperm⟩ := List.perm_comp_forall₂ h.symm (mapM_ok_iff.mp hxs)
  exact ⟨bs, mapM_ok_iff.mpr hys, hperm.symm⟩

/-- The component instances and the wires are the same, and module instances run under the same
component instances, in whatever order. -/
structure Deployment.Agrees (d d' : Deployment) : Prop where
  components : d.components = d'.components
  componentNames : ∀ implementation i,
    (d.componentNames implementation i).Perm (d'.componentNames implementation i)
  wires : d.wires = d'.wires

namespace Deployment

variable {d d' : Deployment}

theorem Agrees.refl (d : Deployment) : d.Agrees d := ⟨rfl, fun _ _ => .refl _, rfl⟩

theorem Agrees.symm (h : d.Agrees d') : d'.Agrees d :=
  ⟨h.components.symm, fun implementation i => (h.componentNames implementation i).symm,
    h.wires.symm⟩

/-- Module instances run under component instances that differ. -/
theorem nodup_componentNames (d : Deployment) (implementation i : String) :
    (d.componentNames implementation i).Nodup :=
  (d.listsFirsts_componentNames implementation i).nodup

/-- With its domains in another order a deployment is built as well, and agrees. -/
theorem build_of_perm {deployment deployment' : Declared.Deployment} {a : Declared.Assembly}
    (h : deployment.protectionDomains.Perm deployment'.protectionDomains)
    (hd : Deployment.build deployment a = .ok d) :
    ∃ d', Deployment.build deployment' a = .ok d' ∧ d.Agrees d' := by
  obtain ⟨placements, hplacements, hd⟩ := bind_ok_iff.mp hd
  obtain ⟨wires, hwires, ⟨⟩⟩ := bind_ok_iff.mp hd
  obtain ⟨placements', hplacements', hperm⟩ := mapM_ok_of_perm (h.flatMap_right _) hplacements
  refine ⟨⟨_, placements', wires⟩, ?_, rfl, fun implementation i => ?_, rfl⟩
  · exact bind_ok_iff.mpr ⟨placements', hplacements', bind_ok_iff.mpr ⟨wires, hwires, rfl⟩⟩
  · refine (List.perm_ext_iff_of_nodup (nodup_componentNames _ _ _)
      (nodup_componentNames _ _ _)).mpr fun c => ?_
    rw [mem_componentNames, mem_componentNames]
    exact hperm.mem_iff

end Deployment

end Ecoa
