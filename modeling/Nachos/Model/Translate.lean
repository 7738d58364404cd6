import Nachos.Model.Machine

/-! # The statements of `Translate`

`Translate` of `machine/translate.cc` once more, with the exception that it returns, the
assignment to `*physAddr` and what each way out leaves in the machine. -/

namespace Nachos.Machine

/-- `entry`: its index in the table that is installed. The ASSERTs admit exactly one of the
two. -/
def findEntry (m : Machine) (vpn : ℕ) : Except Trap (ℕ × TranslationEntry) :=
  match m.tlb, m.pageTable with
  | none, some table =>
      match table[vpn]? with
      | none => .error (.exception .addressErrorException)
      | some entry =>
          if entry.valid = false then .error (.exception .pageFaultException)
          else .ok (vpn, entry)
  | some tlb, none =>
      match tlb.findIdx? (fun e => e.valid && toUnsigned e.virtualPage = vpn) with
      | none => .error (.exception .pageFaultException)
      | some i =>
          match tlb[i]? with
          | none => .error .assertion
          | some entry => .ok (i, entry)
  | _, _ => .error .assertion

/-- `*entry = e` for an `entry` that points into the table -/
def setEntry (m : Machine) (i : ℕ) (e : TranslationEntry) : Machine :=
  { m with
    tlb := m.tlb.map fun tlb => tlb.set i e
    pageTable := m.pageTable.map fun table => table.set i e }

/-- What `Translate` returns, `*physAddr` if it was assigned, and the machine then. `none` when
an ASSERT fails. -/
def runTranslate (m : Machine) (virtAddr : Word) (size : ℕ) (writing : Bool) :
    Option (ExceptionType × Option ℕ × Machine) :=
  if misaligned virtAddr size then some (.addressErrorException, none, m)
  else
    let vpn := virtAddr.toNat / pageSize
    let offset := virtAddr.toNat % pageSize
    match m.findEntry vpn with
    | .error (.exception which) => some (which, none, m)
    | .error .assertion => none
    | .ok (i, entry) =>
        if entry.readOnly && writing then some (.readOnlyException, none, m)
        else
          let pageFrame := toUnsigned entry.physicalPage
          if numPhysPages ≤ pageFrame then some (.busErrorException, none, m)
          else
            let entry := { entry with use := true }
            let entry := if writing then { entry with dirty := true } else entry
            let m := m.setEntry i entry
            let physAddr := pageFrame * pageSize + offset
            if physAddr + size ≤ memorySize then some (.noException, some physAddr, m)
            else none

end Nachos.Machine
