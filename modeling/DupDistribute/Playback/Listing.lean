import DupDistribute.Base.Ledger
import DupDistribute.Playback.Window

/-!
# What a listing allocates

`SCANDIR_TAIL` (`scandir-tail.c:31-112`) grows a vector with `realloc`, stores a copy of each
selected entry in it, and gives up when `readdir`, `realloc` or `malloc` fails;
`__scandir_cancel_handler` (`scandir-cancel.c:21-31`) then frees what was stored. Wherever it
fails, nothing is left, and otherwise the caller owns the vector and one block for every entry.
-/

namespace DupDistribute.Playback

open DupDistribute.Base DupDistribute.Wire

/-- What `scandir` acquires: the directory stream, a vector of so many slots, and the copy of an
entry. -/
inductive ListingResource where
  | dirp
  | vector (vsize : Nat)
  | entry (i : Nat)
  deriving DecidableEq

/-- The vector `v`, which is no block while its size is 0. -/
def vectorOf (vsize : Nat) : List ListingResource := if vsize = 0 then [] else [.vector vsize]

/-- The copies of the first entries. -/
def entriesOf (cnt : Nat) : List ListingResource := (List.range cnt).map .entry

/-- `__scandir_cancel_handler`. -/
def cancelOps (cnt vsize : Nat) : List (LedgerOp ListingResource) :=
  (entriesOf cnt).map .release ++ (vectorOf vsize).map .release ++ [.release .dirp]

/-- The next size of the vector, `scandir-tail.c:67-70`. -/
def grown (vsize : Nat) : Nat := if vsize = 0 then 10 else vsize * 2

/-- The loop of `SCANDIR_TAIL` and what follows it, with `cnt` entries stored. -/
def loopOps (dir : Directory) (select : Dirent → Bool) :
    List Dirent → Nat → Nat → List (LedgerOp ListingResource)
  | [], cnt, vsize => if dir.readdirFails then cancelOps cnt vsize else [.release .dirp]
  | d :: rest, cnt, vsize =>
    if select d then
      if cnt = vsize then
        if dir.reallocFails cnt then cancelOps cnt vsize
        else
          .acquire (.vector (grown vsize)) :: ((vectorOf vsize).map .release ++
            if dir.mallocFails cnt then cancelOps cnt (grown vsize)
            else .acquire (.entry cnt) :: loopOps dir select rest (cnt + 1) (grown vsize))
      else if dir.mallocFails cnt then cancelOps cnt vsize
      else .acquire (.entry cnt) :: loopOps dir select rest (cnt + 1) vsize
    else loopOps dir select rest cnt vsize

/-- `SCANDIR_TAIL` on what `opendir` gave. -/
def scandirOps (dir : Directory) (request : ReplayProtocol) : List (LedgerOp ListingResource) :=
  if dir.opens then .acquire .dirp :: loopOps dir (Dirent.selected request) dir.entries 0 0
  else []

/-- The size of the vector when so many entries are stored. -/
def capacity : Nat → Nat
  | 0 => 0
  | n + 1 => if n = capacity n then grown (capacity n) else capacity n

/-- What the caller owns after a listing. -/
def listingOf (listed : Option (List Dirent)) : Multiset ListingResource :=
  match listed with
  | none => 0
  | some v => (vectorOf (capacity v.length) : Multiset ListingResource) + entriesOf v.length

/-- What is held in the loop: the stream, the copies and the vector. -/
def scanHeld (cnt vsize : Nat) : Multiset ListingResource :=
  {.dirp} + (entriesOf cnt : Multiset ListingResource) + (vectorOf vsize : Multiset ListingResource)

/-! ### One listing -/

/-- `__scandir_cancel_handler` gives back everything that is held. -/
private theorem cancelOps_settles (cnt vsize : Nat) :
    Settles (cancelOps cnt vsize) (scanHeld cnt vsize) 0 := by
  have hentries := (Settles.release (entriesOf cnt)).frame
    ({ListingResource.dirp} + (vectorOf vsize : Multiset ListingResource))
  have hvector := (Settles.release (vectorOf vsize)).frame {ListingResource.dirp}
  have hdirp := Settles.release [ListingResource.dirp]
  rw [add_zero] at hentries hvector
  rw [scanHeld, add_right_comm]
  exact (hentries.append hvector).append hdirp

/-- `realloc` replaces the vector by a larger one. -/
private theorem grow_settles (cnt vsize : Nat) :
    Settles (.acquire (.vector (grown vsize)) :: (vectorOf vsize).map .release)
      (scanHeld cnt vsize) (scanHeld cnt (grown vsize)) := by
  have hpos : grown vsize ≠ 0 := by
    rw [grown]
    split <;> omega
  have hacquire := (Settles.acquire [ListingResource.vector (grown vsize)]).frame
    (scanHeld cnt vsize)
  have hrelease := (Settles.release (vectorOf vsize)).frame (scanHeld cnt (grown vsize))
  have hswap : scanHeld cnt vsize +
      ([ListingResource.vector (grown vsize)] : Multiset ListingResource) =
      scanHeld cnt (grown vsize) + (vectorOf vsize : Multiset ListingResource) := by
    rw [scanHeld, scanHeld, vectorOf.eq_def (grown vsize), if_neg hpos, add_right_comm]
  rw [add_zero] at hacquire hrelease
  rw [← hswap] at hrelease
  exact hacquire.append hrelease

/-- The copy of an entry is stored. -/
private theorem entry_settles (cnt vsize : Nat) :
    Settles [.acquire (.entry cnt)] (scanHeld cnt vsize) (scanHeld (cnt + 1) vsize) := by
  have hacquire := (Settles.acquire [ListingResource.entry cnt]).frame (scanHeld cnt vsize)
  have hentries : entriesOf (cnt + 1) = entriesOf cnt ++ [.entry cnt] := by
    rw [entriesOf, List.range_succ, List.map_append]
    rfl
  have hmore : scanHeld cnt vsize + ([ListingResource.entry cnt] : Multiset ListingResource) =
      scanHeld (cnt + 1) vsize := by
    rw [scanHeld, scanHeld, hentries, ← Multiset.coe_add, add_right_comm, add_assoc {_}]
  rw [add_zero, hmore] at hacquire
  exact hacquire

/-- `closedir` leaves the vector and the copies to the caller. -/
private theorem close_settles (v : List Dirent) :
    Settles [.release .dirp] (scanHeld v.length (capacity v.length)) (listingOf (some v)) := by
  have hrelease := (Settles.release [ListingResource.dirp]).frame (listingOf (some v))
  have hheld : listingOf (some v) + ([ListingResource.dirp] : Multiset ListingResource) =
      scanHeld v.length (capacity v.length) := by
    rw [listingOf, scanHeld, add_comm, add_comm (vectorOf _ : Multiset ListingResource),
      ← add_assoc]
    rfl
  rw [add_zero, hheld] at hrelease
  exact hrelease

/-- From any point of the loop, a failure gives everything back and the end of the directory
leaves what the caller owns. -/
private theorem loopOps_settles (dir : Directory) (select : Dirent → Bool) (rest v : List Dirent)
    (vsize : Nat) (hsize : vsize = capacity v.length) :
    Settles (loopOps dir select rest v.length vsize) (scanHeld v.length vsize)
      (listingOf (scandirLoop dir select rest v vsize)) := by
  -- the cases are the branches of the loop; the vector always has the size its entries need
  fun_induction scandirLoop dir select rest v vsize with
  | case1 v vsize hfails =>
    rw [loopOps, if_pos hfails]
    exact cancelOps_settles _ _
  | case2 v vsize hfails =>
    rw [loopOps, if_neg hfails, hsize]
    exact close_settles v
  | case3 d rest v hd hrealloc =>
    rw [loopOps, if_pos hd, if_pos rfl, if_pos hrealloc]
    exact cancelOps_settles _ _
  | case4 d rest v hd hrealloc hmalloc =>
    rw [loopOps, if_pos hd, if_pos rfl, if_neg hrealloc, if_pos hmalloc]
    exact (grow_settles _ _).append (cancelOps_settles _ _)
  | case5 d rest v hd hrealloc hmalloc ih =>
    rw [loopOps, if_pos hd, if_pos rfl, if_neg hrealloc, if_neg hmalloc]
    have hnext : grown v.length = capacity (v ++ [d]).length := by
      rw [List.length_append, List.length_singleton, capacity, if_pos hsize, ← hsize]
    have hrest := ih hnext
    rw [List.length_append, List.length_singleton] at hrest
    exact (grow_settles _ _).append ((entry_settles _ _).append hrest)
  | case6 d rest v vsize hd hfull hmalloc =>
    rw [loopOps, if_pos hd, if_neg hfull, if_pos hmalloc]
    exact cancelOps_settles _ _
  | case7 d rest v vsize hd hfull hmalloc ih =>
    rw [loopOps, if_pos hd, if_neg hfull, if_neg hmalloc]
    have hnext : vsize = capacity (v ++ [d]).length := by
      rw [List.length_append, List.length_singleton, capacity, ← hsize, if_neg hfull]
    have hrest := ih hnext
    rw [List.length_append, List.length_singleton] at hrest
    exact (entry_settles _ _).append hrest
  | case8 d rest v vsize hd ih =>
    rw [loopOps, if_neg hd]
    exact ih hsize

/-- Sorting moves no block. -/
private theorem listingOf_map_mergeSort (listed : Option (List Dirent))
    (le : Dirent → Dirent → Bool) :
    listingOf (listed.map (fun v ↦ v.mergeSort le)) = listingOf listed := by
  cases listed with
  | none => rfl
  | some v => rw [Option.map_some, listingOf, listingOf, List.length_mergeSort]

/-- For every directory, every request and every choice of the calls that fail: `scandir` frees
and closes only what it holds, leaves nothing when it gives -1, and otherwise leaves its caller
exactly the vector and one block for each entry it lists. -/
theorem scandir_settles (dir : Directory) (request : ReplayProtocol) :
    settle 0 (scandirOps dir request) = some (listingOf (scandir dir request)) := by
  unfold scandirOps scandir scandirTail
  split
  · rw [listingOf_map_mergeSort]
    have hopen := Settles.acquire [ListingResource.dirp]
    have hloop := loopOps_settles dir (Dirent.selected request) dir.entries [] 0 rfl
    have hrun := hopen.append hloop 0
    rwa [zero_add, zero_add] at hrun
  · rfl

end DupDistribute.Playback
