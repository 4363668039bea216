import Spineless.Proofs.Partial.Boxed

/-!
# Byte arrays with partial operations

The family of byte arrays again, with a partial operation wherever it slices, copies or takes the bytes of an
element apart. The position of an element is computed in machine words, so a byte array whose size is no
machine word is refused where it would have been read (`elementBytes_bind`).
-/

namespace Spineless

open PrimOp

/-- The sizes of the byte arrays are machine words. -/
def Spaces.Fits (sp : Spaces) : Prop :=
  ∀ (h : Handle) (b : Bytes), sp.byteArrays[h]? = some b → b.bytes.size < Bound.word

namespace Partial

variable {fits : Prop} {host : Host} {call : Call} {s : State}

/-! ## Byte arrays -/

/-- The bytes of an element, from its start up to its end, checked against a size. -/
def elementBytes (call : Call) (size : Nat) (i : Int64) (width : Nat) : Partial (Nat × Nat) := do
  let index ← call.index i
  let span := (product? index width).bind fun start => (sum? start width).map fun stop => (start, stop)
  match span with
  | some (start, stop) =>
    if stop ≤ size then pure (start, stop) else call.refuse (.elementOutside index size)
  | none => call.refuse (.elementOutside index size)

/-- The bytes of a number, copied into an array of their own. -/
def rawBytes (bytes : Array UInt8) : Partial (List UInt8) := do
  return (← overwrite (Array.replicate 8 0) 0 8 bytes).toList

/-- The atom of an element. -/
def decode (e : Element) (bytes : Array UInt8) : Partial Atom :=
  match e with
  | .word8 => do return .word (← entry bytes[0]?).toUInt64
  | .char => do return .char (Char.ofNat (← entry bytes[0]?).toNat)
  | .int => do return .int (UInt64.ofNat (Element.ofLittleEndian (← rawBytes bytes))).toInt64
  | .word => do return .word (UInt64.ofNat (Element.ofLittleEndian (← rawBytes bytes)))

/-- The element at an index. -/
def fetch (e : Element) (call : Call) (h : Handle) (i : Int64) : Partial Answer := do
  let bytes := (← Exec.readBytes h).bytes
  let (start, stop) ← elementBytes call bytes.size i e.width
  Exec.answer (← decode e (← stretch bytes start stop))

/-- Changes the element at an index. -/
def put (e : Element) (call : Call) (h : Handle) (i : Int64) (value : Atom) : Partial Answer := do
  let bytes := (← Exec.readBytes h).bytes
  let (start, stop) ← elementBytes call bytes.size i e.width
  match e.encode? value with
  | none => Exec.declined
  | some encoded =>
    let changed ← overwrite bytes start stop encoded.toArray
    Exec.modifyBytes h fun _ => changed
    Exec.noValues

/-- A fresh array of zeros. -/
def create (host : Host) (call : Call) (size : Int64) (pinned : Bool) : Partial Answer := do
  let bytes ← call.filled host.bytes 0 (← call.index size)
  Exec.answer (.byteArray (← newBytes bytes pinned))

/-- Copies a range of one byte array over a range of another. -/
def copyBytes (call : Call) (src : Handle) (srcOffset : Int64) (dst : Handle)
    (dstOffset count : Int64) : Partial Answer := do
  let bytes := (← Exec.readBytes src).bytes
  let (start, stop) ← range .bytesOutside call bytes.size srcOffset count
  let copied ← stretch bytes start stop
  let old := (← Exec.readBytes dst).bytes
  let (start, stop) ← range .bytesOutside call old.size dstOffset count
  let changed ← overwrite old start stop copied
  Exec.modifyBytes dst fun _ => changed
  Exec.noValues

/-- Answers a call of an operation on byte arrays. -/
def byteRun (host : Host) (op : ByteOp) (call : Call) : Partial Answer :=
  match op, call.args with
  | .new pinned, [.int count, .void] => create host call count pinned
  | .newAligned, [.int count, _, .void] => create host call count true
  | .copy, [.byteArray src, .int srcOffset, .byteArray dst, .int dstOffset, .int count, .void] =>
    copyBytes call src srcOffset dst dstOffset count
  | .index e, [.byteArray h, .int i] => fetch e call h i
  | .read e, [.byteArray h, .int i, .void] => fetch e call h i
  | .write e, [.byteArray h, .int i, value, .void] => put e call h i value
  | op, _ => op.run host call

/-- The bytes of an element that lies inside are found, where the size is a machine word. Another element
is refused. -/
theorem elementBytes_bind {α : Type} {size width : Nat} {i : Int64} {f : Nat × Nat → Partial α}
    {g : Nat → Exec α} (hsize : fits → size < Bound.word)
    (h : i.toInt.toNat * width + width ≤ size → Agrees fits
      (f (i.toInt.toNat * width, i.toInt.toNat * width + width)) (g (i.toInt.toNat * width)) s) :
    Agrees fits (elementBytes call size i width >>= f) (ByteOp.elementStart call size i width >>= g) s := by
  unfold elementBytes ByteOp.elementStart
  simp only [bind_assoc]
  refine .bind (.lift _) fun index t hindex => ?_
  obtain ⟨-, rfl, rfl⟩ := Call.index_eq_ok.1 hindex
  by_cases hword : i.toInt.toNat * width + width < Bound.word
  · have hproduct : i.toInt.toNat * width < Bound.word := by omega
    simp only [product?, sum?, hproduct, hword, if_true, Option.bind_some, Option.map_some]
    by_cases hle : i.toInt.toNat * width + width ≤ size
    · simp only [hle, if_true, pure_bind]
      exact h hle
    · simp only [hle, if_false]
      exact .of_eq rfl
  · -- The element ends beyond the machine words, so it is refused whatever the size is.
    have hnone : ((product? i.toInt.toNat width).bind fun start =>
        (sum? start width).map fun stop => (start, stop)) = none := by
      unfold product? sum?
      split
      · rw [Option.bind_some, if_neg hword, Option.map_none]
      · rfl
    simp only [hnone]
    by_cases hfits : fits
    · have hle : ¬ i.toInt.toNat * width + width ≤ size := by
        have := hsize hfits
        omega
      simp only [hle, if_false]
      exact .of_eq rfl
    · exact .inr ⟨hfits, _, _, rfl⟩

/-- The bytes of an element are decoded one by one, or as those of a number. -/
theorem decode_eq {e : Element} {bytes : Array UInt8} (hsize : bytes.size = e.width) :
    decode e bytes = pure (e.decode bytes.toList) := by
  have hraw : bytes.size = 8 → rawBytes bytes = pure bytes.toList := by
    intro hsize
    have hcopy : (splice (Array.replicate 8 0) 0 bytes).toList = bytes.toList := by
      simp [toList_splice, hsize]
    rw [rawBytes, ← hcopy]
    exact congrArg (· >>= _) (overwrite_eq hsize (by simp))
  have hone : bytes.size = 1 → ∃ b, bytes = #[b] := by
    intro hsize
    obtain ⟨b, hb⟩ := List.length_eq_one_iff.1 hsize
    exact ⟨b, Array.toList_inj.1 hb⟩
  cases e with
  | int | word =>
      rw [decode, hraw hsize]
      rfl
  | word8 =>
      obtain ⟨b, rfl⟩ := hone hsize
      have hword : b.toUInt64 = UInt64.ofNat b.toNat := UInt64.toNat_inj.1 (by simp)
      change (pure (.word b.toUInt64) : Partial Atom) = _
      rw [hword]
      rfl
  | char =>
      obtain ⟨b, rfl⟩ := hone hsize
      rfl

/-- Bytes that are overwritten aside are put in the place of the old ones. -/
theorem changeBytes_agrees {h : Handle} {b : Bytes} {start count : Nat} {new : Array UInt8}
    (hb : s.spaces.byteArrays[h]? = some b) (hsize : new.size = count)
    (hle : start + count ≤ b.bytes.size) :
    Agrees fits
      (do
        let changed ← overwrite b.bytes start (start + count) new
        Exec.modifyBytes h fun _ => changed
        Exec.noValues)
      (do
        Exec.modifyBytes h fun old => splice old start new
        Exec.noValues) s := by
  have hbytes : s.spaces.byteArrays.modify h (fun b' => { b' with bytes := splice b.bytes start new }) =
      s.spaces.byteArrays.modify h fun b' => { b' with bytes := splice b'.bytes start new } :=
    modify_congr hb rfl
  rw [overwrite_eq hsize hle, pure_bind]
  refine .bind (.lift_congr ?_) fun _ _ _ => .lift _
  rw [Exec.modifyBytes_of_eq hb, Exec.modifyBytes_of_eq hb, hbytes]

theorem fetch_agrees (hfits : fits → s.spaces.Fits) (e : Element) (h : Handle) (i : Int64) :
    Agrees fits (fetch e call h i) (ByteOp.fetch e call h i) s := by
  refine .bind (.lift _) fun b t hread => ?_
  obtain ⟨hb, rfl⟩ := Exec.readBytes_eq_ok.1 hread
  refine elementBytes_bind (fun hyes => hfits hyes h b hb) fun hle => ?_
  refine stretch_bind hle ?_
  rw [decode_eq (size_slice hle), pure_bind]
  exact .lift _

theorem put_agrees (hfits : fits → s.spaces.Fits) (e : Element) (h : Handle) (i : Int64) (value : Atom) :
    Agrees fits (put e call h i value) (ByteOp.put e call h i value) s := by
  refine .bind (.lift _) fun b t hread => ?_
  obtain ⟨hb, rfl⟩ := Exec.readBytes_eq_ok.1 hread
  refine elementBytes_bind (fun hyes => hfits hyes h b hb) fun hle => ?_
  cases hencoded : e.encode? value with
  | none => exact .lift _
  | some encoded => exact changeBytes_agrees hb (Element.length_of_encode? hencoded) hle

theorem copyBytes_agrees (src : Handle) (srcOffset : Int64) (dst : Handle) (dstOffset count : Int64) :
    Agrees fits (copyBytes call src srcOffset dst dstOffset count)
      (ByteOp.copyInto call src srcOffset dst dstOffset count) s := by
  refine .bind (.lift _) fun a t hread => ?_
  obtain ⟨-, rfl⟩ := Exec.readBytes_eq_ok.1 hread
  refine range_bind fun hsrc => stretch_bind hsrc.le ?_
  refine .bind (.lift _) fun b t hread => ?_
  obtain ⟨hb, rfl⟩ := Exec.readBytes_eq_ok.1 hread
  exact range_bind fun hdst => changeBytes_agrees hb (size_slice hsrc.le) hdst.le

theorem create_agrees (size : Int64) (pinned : Bool) :
    Agrees fits (create host call size pinned) (ByteOp.create host call size pinned) s :=
  .bind (.lift _) fun _ _ _ => .bind (.lift _) fun bytes _ _ =>
    .bind (newBytes_agrees bytes pinned) fun _ _ _ => .lift _

theorem byteRun_agrees (hfits : fits → s.spaces.Fits) (op : ByteOp) :
    Agrees fits (byteRun host op call) (op.run host call) s := by
  fun_cases byteRun host op call with
  | case1 pinned count hargs =>
      simp only [ByteOp.run, hargs]
      exact create_agrees count pinned
  | case2 count other hargs =>
      simp only [ByteOp.run, hargs]
      exact create_agrees count true
  | case3 src srcOffset dst dstOffset count hargs =>
      simp only [ByteOp.run, hargs]
      exact copyBytes_agrees src srcOffset dst dstOffset count
  | case4 e h i hargs | case5 e h i hargs =>
      simp only [ByteOp.run, hargs]
      exact fetch_agrees hfits e h i
  | case6 e h i value hargs =>
      simp only [ByteOp.run, hargs]
      exact put_agrees hfits e h i value
  | case7 => exact .lift _

end Partial

end Spineless
