import DisastrOS.Machine.Objects

/-!
# Resource system calls
-/
namespace DisastrOS.Machine.Kernel

/-- `internal_openResource`. Neither the new resource nor the descriptor pointer is
tested for NULL before it is inserted. -/
def internalOpenResource (k : Kernel) : Except Fault Kernel := do
  let r ← deref k.running
  let id := toInt (k.arg r 0)
  let type := toInt (k.arg r 1)
  let openMode := toInt (k.arg r 2)
  let found ← k.resourceListById .resourcesList id
  if hasFlag openMode DSOS_CREATE then
    if found.isSome then
      return k.setRetvalue r DSOS_ERESOURCECREATE
    else
      let (res, k) ← deref (k.resourceAlloc id type)
      bind (k.append .resourcesList ⟨.resource, res⟩) r (some res) type openMode
  else
    bind k r found type openMode
where
  /-- The part after the resource has been created or found. -/
  bind (k : Kernel) (r : Nat) (found : Option Nat) (type openMode : Int) :
      Except Fault Kernel := do
    match found with
    | none => return k.setRetvalue r DSOS_ERESOURCEOPEN
    | some res =>
      if (k.resource res).type ≠ type then
        return k.setRetvalue r DSOS_ERESOURCEOPEN
      else if hasFlag openMode DSOS_EXCL ∧ (k.head (.users .resource res)).size ≠ 0 then
        return k.setRetvalue r DSOS_ERESOURCENOEXCL
      else
        match k.descriptorAlloc .resource (k.pcb r).lastFd res r with
        | none => return k.setRetvalue r DSOS_ERESOURCENOFD
        | some (des, k) =>
          let next ← addInt (k.pcb r).lastFd 1
          let k := k.modPcb r fun q => { q with lastFd := next }
          let desptr := k.descriptorPtrAlloc .resource des
          let k := (desptr.map Prod.snd).getD k
          let k := k.append (.opened .resource r) ⟨.descriptor, des⟩
          let k := k.setDescriptor .resource des
            { k.descriptor .resource des with ptr := desptr.map Prod.fst }
          let ptr ← deref (k.descriptor .resource des).ptr
          let k := k.append (.users .resource res) ⟨.descriptorPtr, ptr⟩
          return k.setRetvalue r (k.descriptor .resource des).fd

/-- `internal_closeResource`. -/
def internalCloseResource (k : Kernel) : Except Fault Kernel := do
  let r ← deref k.running
  let fd := toInt (k.arg r 0)
  match ← k.descriptorListByFd .resource (.opened .resource r) fd with
  | none => return k.setRetvalue r DSOS_ERESOURCECLOSE
  | some des =>
    let k := k.detach (.opened .resource r) ⟨.descriptor, des⟩
    let res ← deref (k.descriptor .resource des).object
    let ptr ← deref (k.descriptor .resource des).ptr
    let k := k.detach (.users .resource res) ⟨.descriptorPtr, ptr⟩
    let k := k.releaseBlock .descriptor des
    let k := k.releaseBlock .descriptorPtr ptr
    return k.setRetvalue r 0

/-- `internal_destroyResource`. -/
def internalDestroyResource (k : Kernel) : Except Fault Kernel := do
  let r ← deref k.running
  let id := toInt (k.arg r 0)
  match ← k.resourceListById .resourcesList id with
  | none => return k.setRetvalue r DSOS_ERESOURCECLOSE
  | some res =>
    if (k.head (.users .resource res)).size ≠ 0 then
      return k.setRetvalue r DSOS_ERESOURCEINUSE
    else
      let k := k.detach .resourcesList ⟨.resource, res⟩
      let k ← k.resourceFree res
      return k.setRetvalue r 0

end DisastrOS.Machine.Kernel
