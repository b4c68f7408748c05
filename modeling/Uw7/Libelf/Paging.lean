import Uw7.Lib.Run

namespace Uw7.Libelf

/-!
# Demand paging

`_elf_vm` from `libelf/common/input.c` for a file that is not mapped.  The image keeps, beside
the bit of each page, how often each of its bytes arrived from the file.
-/

open Function Lib

def pgsz : Nat := 2048

def nbits : Nat := 32

def pgnum (off : Nat) : Nat := off % (nbits * pgsz) / pgsz

def regnum (off : Nat) : Nat := off / (nbits * pgsz)

/-- The values of `_elf_err` that `_elf_vm` sets. -/
inductive VmErr where
  | EFMT_VM
  | EREQ_NOFD
  | EIO_VM
  deriving DecidableEq

/-- `ed_image`, which an archive and its members share. -/
structure ElfImage where
  edImagesz : Nat
  edVm : Nat → BitVec nbits
  reads : Nat → Nat

/-- The fields of `Elf` that `_elf_vm` uses beside the image; `edParent` is the `ed_fd` of the
archive. -/
structure VmElf where
  edFsz : Nat
  edBaseoff : Nat
  edFd : Int
  edParent : Option Int

/-- What `lseek` and `read` deliver for a place and a size: nothing when one of them fails. -/
abbrev VmFile := Nat → Nat → Option Nat

namespace ElfImage

/-- The bit of a page, `*hdreg & hdbit`. -/
def paged (image : ElfImage) (page : Nat) : Bool :=
  (image.edVm (page / nbits)).getLsbD (page % nbits)

/-- `*hdreg |= hdbit`. -/
def markPage (image : ElfImage) (page : Nat) : ElfImage :=
  let hdreg := image.edVm (page / nbits) ||| BitVec.twoPow nbits (page % nbits)
  { image with edVm := update image.edVm (page / nbits) hdreg }

def cut (image : ElfImage) (off sz : Nat) : Nat :=
  if image.edImagesz - off < sz then image.edImagesz - off else sz

/-- Some bytes arrive. -/
def arrive (image : ElfImage) (off count : Nat) : ElfImage :=
  { image with reads := fun place =>
      if off ≤ place ∧ place < off + count then image.reads place + 1 else image.reads place }

/-- Seek and read. -/
def readPages (image : ElfImage) (file : VmFile) (off sz : Nat) : Option VmErr × ElfImage :=
  match file off (image.cut off sz) with
  | none => (some .EIO_VM, image)
  | some count =>
    let image' := image.arrive off (min count (image.cut off sz))
    if count = image.cut off sz then (none, image') else (some .EIO_VM, image')

end ElfImage

/-- The loop of `_elf_vm` for `n` pages and the read behind it; `page` stands for `hdreg` and
`hdbit`. -/
def pageLoop (edFd : Int) (file : VmFile) :
    Nat → Nat → Nat → Nat → ElfImage → Option VmErr × ElfImage
  | 0, _, off, sz, image =>
    if sz = 0 then (none, image)
    else if edFd < 0 then (some .EREQ_NOFD, image)
    else image.readPages file off sz
  | n + 1, page, off, sz, image =>
    if image.paged page then
      if sz = 0 then pageLoop edFd file n (page + 1) (off + pgsz) 0 image
      else
        match image.readPages file off sz with
        | (none, image') => pageLoop edFd file n (page + 1) (off + image.cut off sz + pgsz) 0 image'
        | failed => failed
    else if edFd < 0 then (some .EREQ_NOFD, image)
    else pageLoop edFd file n (page + 1) off (sz + pgsz) (image.markPage page)

def VmElf.fd (elf : VmElf) : Int := if elf.edParent = some (-1) then -1 else elf.edFd

def elfVm (elf : VmElf) (file : VmFile) (base sz : Nat) (image : ElfImage) :
    Option VmErr × VmElf × ElfImage :=
  if elf.edFsz ≤ base ∨ elf.edFsz - base < sz then (some .EFMT_VM, elf, image)
  else if sz = 0 then (none, elf, image)
  else
    let base := base + elf.edBaseoff
    let tail := base + sz + pgsz - 1
    let first := regnum base * nbits + pgnum base
    let last := regnum tail * nbits + pgnum tail
    let (okay, image) := pageLoop elf.fd file (last - first) first (base - base % pgsz) 0 image
    (okay, { elf with edFd := elf.fd }, image)

/-- A call of `_elf_vm`, by the file's descriptor or that of a member. -/
structure VmRequest where
  elf : VmElf
  file : VmFile
  base : Nat
  sz : Nat

/-- The image that `_elf_inmap` allocates. -/
def ElfImage.fresh (sz : Nat) : ElfImage := ⟨sz, fun _ => 0, fun _ => 0⟩

namespace VmRequest

/-- The result of a request. -/
def vm (request : VmRequest) (image : ElfImage) : Option VmErr × VmElf × ElfImage :=
  elfVm request.elf request.file request.base request.sz image

def Leaves (image : ElfImage) (request : VmRequest) (image' : ElfImage) : Prop :=
  (request.vm image).2.2 = image'

/-- The request lies in the image, as that of every descriptor does. -/
def Within (image : ElfImage) (request : VmRequest) : Prop :=
  request.elf.edBaseoff + request.elf.edFsz ≤ image.edImagesz

/-- The bytes of the image that a request asks for. -/
def Asks (request : VmRequest) (place : Nat) : Prop :=
  request.elf.edBaseoff + request.base ≤ place ∧
    place < request.elf.edBaseoff + request.base + request.sz

end VmRequest

theorem pageNumber (off : Nat) : regnum off * nbits + pgnum off = off / pgsz := by
  simp only [regnum, pgnum, nbits, pgsz]
  omega

namespace ElfImage

variable {image image' : ElfImage} {file : VmFile} {off sz page : Nat} {failed : VmErr}

theorem paged_markPage (page other : Nat) :
    (image.markPage page).paged other = (image.paged other || decide (other = page)) := by
  have size (n : Nat) : n % nbits < nbits := Nat.mod_lt _ (by decide)
  simp only [paged, markPage]
  by_cases word : other / nbits = page / nbits
  · have same : page % nbits = other % nbits ↔ other = page := by
      simp only [nbits] at word ⊢
      omega
    simp only [word, update_self, BitVec.getLsbD_or, BitVec.getLsbD_twoPow, size, same,
      decide_true, Bool.true_and, eq_comm]
  · rw [update_of_ne word, decide_eq_false, Bool.or_false]
    rintro rfl
    exact word rfl

/-- No byte arrived twice, and those that arrived lie on pages whose bit is set. -/
def Once (image : ElfImage) : Prop :=
  ∀ place, image.reads place ≤ 1 ∧ (image.reads place ≠ 0 → image.paged (place / pgsz))

/-- The bits between two places are set, and nothing arrived there yet. -/
def Awaits (image : ElfImage) (off stop : Nat) : Prop :=
  ∀ place, off ≤ place → place < stop → image.reads place = 0 ∧ image.paged (place / pgsz)

theorem Once.markPage (once : image.Once) (page : Nat) : (image.markPage page).Once :=
  fun place => ⟨(once place).1, fun arrived => by simp [paged_markPage, (once place).2 arrived]⟩

theorem Once.arrive {count : Nat} (once : image.Once) (awaits : image.Awaits off (off + count)) :
    (image.arrive off count).Once := by
  intro place
  simp only [ElfImage.arrive]
  split_ifs with inside
  · obtain ⟨unread, marked⟩ := awaits place inside.1 inside.2
    exact ⟨by omega, fun _ => marked⟩
  · exact once place

theorem Once.readPages (once : image.Once) (awaits : image.Awaits off (off + sz)) :
    (image.readPages file off sz).2.Once := by
  have short : image.cut off sz ≤ sz := by
    unfold cut
    split_ifs <;> omega
  unfold ElfImage.readPages
  cases file off (image.cut off sz) with
  | none => exact once
  | some count =>
    simp only
    have arrived : (image.arrive off (min count (image.cut off sz))).Once :=
      once.arrive fun place after before => awaits place after (by omega)
    split_ifs <;> exact arrived

theorem readPages_okay (okay : (image.readPages file off sz).1 = none) :
    (image.readPages file off sz).2 = image.arrive off (image.cut off sz) := by
  revert okay
  unfold ElfImage.readPages
  cases file off (image.cut off sz) with
  | none => simp
  | some count =>
    simp only
    split_ifs with whole
    · simp [whole]
    · simp

end ElfImage

/-- The bytes that the loop reads: those that are awaited, and those on pages without a bit. -/
def Fills (image : ElfImage) (off page stop place : Nat) : Prop :=
  off ≤ place ∧ place < stop ∧ (place < page * pgsz ∨ image.paged (place / pgsz) = false)

open ElfImage in
theorem pageLoop_right {edFd : Int} {file : VmFile} {n page off sz : Nat} {image : ElfImage}
    (once : image.Once) (aligned : off + sz = page * pgsz)
    (awaits : image.Awaits off (page * pgsz))
    (inside : n ≠ 0 → (page + n - 1) * pgsz < image.edImagesz) :
    (pageLoop edFd file n page off sz image).2.Once ∧
      ((pageLoop edFd file n page off sz image).1 = none → ∀ place < image.edImagesz,
        (Fills image off page ((page + n) * pgsz) place →
          (pageLoop edFd file n page off sz image).2.reads place = 1) ∧
        (¬Fills image off page ((page + n) * pgsz) place →
          (pageLoop edFd file n page off sz image).2.reads place = image.reads place)) := by
  induction n generalizing page off sz image with
  | zero =>
    rw [Nat.add_zero]
    unfold pageLoop
    split_ifs with nothing closed
    · refine ⟨once, fun _ place _ => ⟨fun fills => ?_, fun _ => rfl⟩⟩
      simp only [Fills] at fills
      omega
    · exact ⟨once, by simp⟩
    · refine ⟨once.readPages (by rwa [aligned]), fun okay place within => ?_⟩
      rw [readPages_okay okay]
      have arrives : place < off + image.cut off sz ↔ place < page * pgsz := by
        unfold cut
        split_ifs <;> omega
      simp only [arrive, arrives, Fills]
      refine ⟨fun fills => ?_, fun outside => ?_⟩
      · rw [if_pos ⟨fills.1, fills.2.1⟩, (awaits place fills.1 fills.2.1).1]
      · rw [if_neg fun held => outside ⟨held.1, held.2, .inl held.2⟩]
  | succ n ih =>
    have next : (page + 1) * pgsz = page * pgsz + pgsz := Nat.succ_mul page pgsz
    have bound : page * pgsz < image.edImagesz :=
      Nat.lt_of_le_of_lt (Nat.mul_le_mul_right _ (by omega)) (inside (by omega))
    have rest : n ≠ 0 → (page + 1 + n - 1) * pgsz < image.edImagesz := fun _ => by
      have := inside (by omega)
      rwa [show page + 1 + n - 1 = page + (n + 1) - 1 by omega]
    have stop : page + (n + 1) = page + 1 + n := by omega
    have ofPage (place : Nat) : place / pgsz = page ↔
        page * pgsz ≤ place ∧ place < (page + 1) * pgsz := by
      simp only [pgsz]
      omega
    unfold pageLoop
    rw [stop]
    split_ifs with present nothing closed
    · obtain ⟨kept, reads⟩ := @ih (page + 1) (off + pgsz) 0 image once
        (by omega) (fun place after before => by omega) rest
      refine ⟨kept, fun okay place within => ?_⟩
      have same : Fills image (off + pgsz) (page + 1) ((page + 1 + n) * pgsz) place ↔
          Fills image off page ((page + 1 + n) * pgsz) place := by
        simp only [Fills]
        grind
      rw [← same]
      exact reads okay place within
    · have whole : image.cut off sz = sz := by
        unfold cut
        split_ifs <;> omega
      have kept := @Once.readPages image file off sz once (by rwa [aligned])
      have okay := @readPages_okay image file off sz
      cases read : image.readPages file off sz with
      | mk failed image' =>
        rw [read] at kept okay
        cases failed with
        | some error => exact ⟨kept, by simp⟩
        | none =>
          obtain rfl := okay rfl
          rw [whole] at kept ⊢
          obtain ⟨kept, reads⟩ := @ih (page + 1) (off + sz + pgsz) 0
            (image.arrive off sz) kept (by omega) (fun place after before => by omega) rest
          refine ⟨kept, fun okay place within => ?_⟩
          obtain ⟨filled, others⟩ := reads okay place within
          have beyond (skipped : image.paged (place / pgsz) = false) (after : off + sz ≤ place) :
              off + sz + pgsz ≤ place := by
            refine Nat.le_of_not_lt fun before => ?_
            rw [(ofPage place).2 ⟨by omega, by omega⟩, present] at skipped
            cases skipped
          refine ⟨fun fills => ?_, fun outside => ?_⟩
          · by_cases earlier : place < off + sz
            · rw [others (fun held => by simp only [Fills] at held; omega)]
              simp only [arrive, fills.1, earlier, true_and, if_true,
                (awaits place fills.1 (by omega)).1]
            · have skipped := fills.2.2.resolve_left (by omega)
              exact filled ⟨beyond skipped (by omega), fills.2.1, .inr skipped⟩
          · have unfilled : ¬Fills (image.arrive off sz) (off + sz + pgsz) (page + 1)
                ((page + 1 + n) * pgsz) place := by
              rintro ⟨after, before, which⟩
              exact outside ⟨by omega, before, .inr (which.resolve_left (by omega))⟩
            rw [others unfilled]
            refine if_neg fun held => outside ⟨held.1, ?_, .inl (by omega)⟩
            have := Nat.mul_le_mul_right pgsz (show page ≤ page + 1 + n by omega)
            omega
    · exact ⟨once, by simp⟩
    · have awaited : (image.markPage page).Awaits off ((page + 1) * pgsz) := by
        intro place after before
        simp only [paged_markPage]
        by_cases earlier : place < page * pgsz
        · obtain ⟨unread, marked⟩ := awaits place after earlier
          exact ⟨unread, by rw [marked, Bool.true_or]⟩
        · have here : place / pgsz = page := (ofPage place).2 ⟨by omega, before⟩
          refine ⟨by_contra fun arrived => present ?_, by simp [here]⟩
          rw [← here]
          exact (once place).2 arrived
      obtain ⟨kept, reads⟩ := @ih (page + 1) off (sz + pgsz)
        (image.markPage page) (once.markPage page) (by omega) awaited rest
      refine ⟨kept, fun okay place within => ?_⟩
      have same : Fills (image.markPage page) off (page + 1) ((page + 1 + n) * pgsz) place ↔
          Fills image off page ((page + 1 + n) * pgsz) place := by
        simp only [Fills, paged_markPage]
        grind
      rw [← same]
      exact reads okay place within

theorem elfVm_right {request : VmRequest} {image : ElfImage} (once : image.Once)
    (within : VmRequest.Within image request) :
    (request.vm image).2.2.Once ∧ ((request.vm image).1 = none → ∀ place, request.Asks place →
      ((request.vm image).2.2.reads place = 1 ↔
        (image.paged (place / pgsz) = true → image.reads place = 1))) := by
  obtain ⟨elf, file, base, sz⟩ := request
  simp only [VmRequest.vm, VmRequest.Asks, VmRequest.Within, elfVm] at within ⊢
  split_ifs with outside nothing
  · exact ⟨once, by simp⟩
  · exact ⟨once, fun _ place asked => by omega⟩
  · simp only [pageNumber]
    have start : base + elf.edBaseoff - (base + elf.edBaseoff) % pgsz =
        (base + elf.edBaseoff) / pgsz * pgsz := by
      have := Nat.div_add_mod' (base + elf.edBaseoff) pgsz
      omega
    have ordered : (base + elf.edBaseoff) / pgsz + ((base + elf.edBaseoff + sz + pgsz - 1) / pgsz -
        (base + elf.edBaseoff) / pgsz) = (base + elf.edBaseoff + sz + pgsz - 1) / pgsz :=
      Nat.add_sub_cancel' (Nat.div_le_div_right (by simp only [pgsz]; omega))
    have right := @pageLoop_right elf.fd file ((base + elf.edBaseoff + sz + pgsz - 1) / pgsz -
      (base + elf.edBaseoff) / pgsz) ((base + elf.edBaseoff) / pgsz)
      (base + elf.edBaseoff - (base + elf.edBaseoff) % pgsz) 0 image once start
      (fun place after before => by omega) (fun _ => by
        simp only [pgsz] at outside ⊢
        omega)
    refine ⟨right.1, fun okay place asked => ?_⟩
    obtain ⟨filled, others⟩ := right.2 okay place (by omega)
    by_cases present : image.paged (place / pgsz) = true
    · rw [others fun fills => by simp [Fills, start, present] at fills; omega]
      simp [present]
    · simp only [present, false_implies, iff_true, Bool.false_eq_true]
      refine filled ⟨by omega, ?_, .inr (by simpa using present)⟩
      simp only [pgsz]
      omega

theorem once_of_run {size : Nat} {requests : List VmRequest} {image : ElfImage}
    (run : Run (Guarded VmRequest.Leaves VmRequest.Within) (.fresh size) requests image) :
    image.Once := by
  refine run.invariant (fun before request after once taken => ?_) ?_
  · rw [← taken.1]
    exact (elfVm_right once taken.2).1
  · exact fun place => ⟨Nat.zero_le 1, fun arrived => absurd rfl arrived⟩

/-- No byte arrives twice, and a request that succeeds has all its bytes unless one of them is
missing on a page that is marked. -/
theorem elfVm_exactlyOnce {size : Nat} {requests : List VmRequest} {image : ElfImage}
    {request : VmRequest}
    (run : Run (Guarded VmRequest.Leaves VmRequest.Within) (.fresh size) requests image)
    (within : VmRequest.Within image request) :
    (∀ place, (request.vm image).2.2.reads place ≤ 1) ∧ ((request.vm image).1 = none →
      ((∀ place, request.Asks place → (request.vm image).2.2.reads place = 1) ↔
        ∀ place, request.Asks place →
          image.paged (place / pgsz) = true → image.reads place = 1)) := by
  obtain ⟨once, right⟩ := elfVm_right (once_of_run run) within
  refine ⟨fun place => (once place).1, fun okay => ?_⟩
  exact forall₂_congr fun place asked => right okay place asked

/-- The first byte of a file of 100 bytes, when `read` delivers some number of bytes. -/
def firstByte (read : Option Nat) : VmRequest := ⟨⟨100, 0, 3, none⟩, fun _ _ => read, 0, 1⟩

theorem elfVm_exactlyOnce_first : (firstByte (some 100)).Asks 0 ∧
    ((firstByte (some 100)).vm (.fresh 100)).2.2.reads 0 = 1 :=
  have within : VmRequest.Within (.fresh 100) (firstByte (some 100)) := Nat.le_refl 100
  have asked : (firstByte (some 100)).Asks 0 := by unfold VmRequest.Asks; decide
  ⟨asked, ((elfVm_exactlyOnce .nil within).2 (by decide)).2
    (fun place _ marked => by simp [ElfImage.paged, ElfImage.fresh] at marked) 0 asked⟩

/-- A page whose read failed counts as present. -/
theorem elfVm_failedRead : ((firstByte none).vm (.fresh 100)).1 = some .EIO_VM ∧
    ((firstByte (some 100)).vm ((firstByte none).vm (.fresh 100)).2.2).1 = none ∧
    ((firstByte (some 100)).vm ((firstByte none).vm (.fresh 100)).2.2).2.2.reads 0 = 0 := by
  decide

end Uw7.Libelf
