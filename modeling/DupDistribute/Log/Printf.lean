import DupDistribute.Base.CString

/-!
# The log formatter

`PrintfLog` (log.c:105-151) scans a format character by character. It takes an argument for
each `s`, `d` and `c` it meets, whether or not a percent sign stands before it; it drops
percent signs and newlines, and writes every other character, an `x` included, as it is.
A `va_arg` whose type does not fit the next argument, or with no argument left, has no
defined result: it ends the model with the argument it misread.
-/

namespace DupDistribute.Log

open DupDistribute.Base

/-- The types the conversions take their arguments with. -/
inductive ArgType where
  | int
  | uint
  | string
  deriving DecidableEq, Repr

/-- An argument as a caller passes it. -/
inductive Arg where
  | int (value : Int32)
  | uint (value : UInt32)
  | string (text : CString)
  deriving DecidableEq, Repr

/-- A `va_arg` that asks for another type than the argument has, or beyond the last one. -/
structure Misread where
  wanted : ArgType
  given : Option Arg
  deriving DecidableEq, Repr

/-- `va_arg(args, char *)`. -/
def vaString : List Arg → Except Misread (CString × Arg × List Arg)
  | .string text :: args => .ok (text, .string text, args)
  | args => .error ⟨.string, args.head?⟩

/-- `va_arg(args, int)`; an `unsigned int` is taken by its bits. -/
def vaInt : List Arg → Except Misread (Int32 × Arg × List Arg)
  | .int value :: args => .ok (value, .int value, args)
  | .uint value :: args => .ok (value.toInt32, .uint value, args)
  | args => .error ⟨.int, args.head?⟩

/-- What was taken, with the type it was asked for, and what was written. -/
structure Printed where
  taken : List (ArgType × Arg)
  text : CString
  deriving DecidableEq, Repr

/-- The output of one step before that of the rest of the format. -/
def Printed.after (taken : List (ArgType × Arg)) (text : CString) (rest : Printed) : Printed :=
  ⟨taken ++ rest.taken, text ++ rest.text⟩

/-- `%c` of `fprintf`: the low byte of the argument. -/
def showChar (value : Int32) : CString := [Char.ofNat (value.toUInt32.toNat % 256)]

/-- `PrintfLog` (log.c:105-151). -/
def printfLog : CString → List Arg → Except Misread Printed
  | [], _ => .ok ⟨[], ['\n']⟩
  | ch :: format, args =>
    if ch = 's' then do
      let (s, arg, args) ← vaString args
      let rest ← printfLog format args
      return rest.after [(.string, arg)] s
    else if ch = 'd' then do
      let (d, arg, args) ← vaInt args
      let rest ← printfLog format args
      return rest.after [(.int, arg)] (printD 0 d)
    else if ch = 'c' then do
      let (c, arg, args) ← vaInt args
      let rest ← printfLog format args
      return rest.after [(.int, arg)] (showChar c)
    else do
      let rest ← printfLog format args
      return rest.after [] (if ch ≠ '%' ∧ ch ≠ '\n' then [ch] else [])

/-! ### Formats with matching arguments -/

/-- An item of a format: a literal character, or a conversion with the argument passed
for it. -/
inductive Item where
  | literal (ch : Char) (plain : ch ≠ '%' ∧ ch ≠ '\n')
  | decimal (value : Int32)
  | string (text : CString)
  | char (value : Int32)
  | hex (value : UInt32)

/-- The item in the format string. -/
def Item.format : Item → CString
  | .literal ch _ => [ch]
  | .decimal _ => ['%', 'd']
  | .string _ => ['%', 's']
  | .char _ => ['%', 'c']
  | .hex _ => ['%', 'x']

/-- The argument of the item, with the type `printf` takes it with. -/
def Item.arg : Item → Option (ArgType × Arg)
  | .literal _ _ => none
  | .decimal value => some (.int, .int value)
  | .string text => some (.string, .string text)
  | .char value => some (.int, .int value)
  | .hex value => some (.uint, .uint value)

/-- What `printf` writes for the item. -/
def Item.printed : Item → CString
  | .literal ch _ => [ch]
  | .decimal value => printD 0 value
  | .string text => text
  | .char value => showChar value
  | .hex value => Nat.toDigits 16 value.toNat

/-- The format string of the items. -/
def format (items : List Item) : CString := items.flatMap Item.format

/-- The arguments of the items, with the types of their conversions. -/
def arguments (items : List Item) : List (ArgType × Arg) := items.filterMap Item.arg

private theorem format_cons (item : Item) (items : List Item) :
    format (item :: items) = item.format ++ format items := List.flatMap_cons

private theorem arguments_cons (item : Item) (items : List Item) :
    arguments (item :: items) = item.arg.toList ++ arguments items := by
  cases ha : item.arg <;> simp [arguments, ha]

/-- The formatter behaves like `printf`: one argument for each conversion, of its type and
in order, and the same text, with a newline behind it. -/
def LikePrintf (items : List Item) : Prop :=
  printfLog (format items) ((arguments items).map Prod.snd) =
    .ok ⟨arguments items, items.flatMap Item.printed ++ ['\n']⟩

/-- The items that the formatter handles: literals other than its three letters, and the
conversions it has a case for. -/
def Item.Handled : Item → Prop
  | .literal ch _ => ch ≠ 's' ∧ ch ≠ 'd' ∧ ch ≠ 'c'
  | .hex _ => False
  | _ => True

instance : (item : Item) → Decidable item.Handled
  | .literal ch _ => inferInstanceAs (Decidable (ch ≠ 's' ∧ ch ≠ 'd' ∧ ch ≠ 'c'))
  | .decimal _ => isTrue trivial
  | .string _ => isTrue trivial
  | .char _ => isTrue trivial
  | .hex _ => isFalse id

/-! ### Formats the scanner handles -/

private theorem printfLog_percent (format : CString) (args : List Arg) :
    printfLog ('%' :: format) args = printfLog format args := by
  rw [printfLog, if_neg (by decide), if_neg (by decide), if_neg (by decide)]
  cases printfLog format args with
  | error e => rfl
  | ok rest => rfl

private theorem printfLog_item {item : Item} (h : item.Handled) {format : CString}
    {args : List Arg} {rest : Printed} (hrest : printfLog format args = .ok rest) :
    printfLog (item.format ++ format) ((item.arg.map Prod.snd).toList ++ args) =
      .ok (rest.after item.arg.toList item.printed) := by
  cases item with
  | literal ch plain =>
    obtain ⟨hs, hd, hc⟩ := h
    simp only [Item.format, Item.arg, Item.printed, List.cons_append, List.nil_append,
      Option.map_none, Option.toList_none]
    rw [printfLog, if_neg hs, if_neg hd, if_neg hc, hrest, if_pos plain]
    rfl
  | decimal value =>
    simp only [Item.format, List.cons_append, List.nil_append, printfLog_percent]
    rw [printfLog, if_neg (by decide), if_pos rfl]
    simp [Item.arg, Item.printed, vaInt, hrest, bind, Except.bind, pure, Except.pure]
  | string text =>
    simp only [Item.format, List.cons_append, List.nil_append, printfLog_percent]
    rw [printfLog, if_pos rfl]
    simp [Item.arg, Item.printed, vaString, hrest, bind, Except.bind, pure, Except.pure]
  | char value =>
    simp only [Item.format, List.cons_append, List.nil_append, printfLog_percent]
    rw [printfLog, if_neg (by decide), if_neg (by decide), if_pos rfl]
    simp [Item.arg, Item.printed, vaInt, hrest, bind, Except.bind, pure, Except.pure]
  | hex value => exact h.elim

private theorem likePrintf_of_handled {items : List Item} (h : ∀ item ∈ items, item.Handled) :
    LikePrintf items := by
  induction items with
  | nil => rfl
  | cons item items ih =>
    have hrest := ih (fun i hi ↦ h i (List.mem_cons_of_mem _ hi))
    have hitem := printfLog_item (h item List.mem_cons_self) hrest
    have hmap : (item.arg.map Prod.snd).toList = item.arg.toList.map Prod.snd := by
      cases item.arg <;> rfl
    rw [LikePrintf, arguments_cons, List.map_append, ← hmap, format_cons, hitem,
      List.flatMap_cons, List.append_assoc]
    rfl

/-! ### What the scanner takes -/

/-- The type the scanner asks for at a character. -/
def request (ch : Char) : Option ArgType :=
  if ch = 's' then some .string else if ch = 'd' ∨ ch = 'c' then some .int else none

/-- A scan that ends well has asked once at each of its letters. -/
theorem requests_of_printfLog {format : CString} {args : List Arg} {p : Printed}
    (h : printfLog format args = .ok p) : p.taken.map Prod.fst = format.filterMap request := by
  induction format generalizing args p with
  | nil =>
    cases h
    rfl
  | cons ch format ih =>
    rw [printfLog] at h
    split at h
    · next hs =>
      obtain ⟨⟨s, arg, args⟩, -, h⟩ := bind_eq_ok.mp h
      obtain ⟨rest, hrest, h⟩ := bind_eq_ok.mp h
      cases h
      simp [Printed.after, request, hs, ih hrest]
    · next hs =>
      split at h
      · next hd =>
        obtain ⟨⟨d, arg, args⟩, -, h⟩ := bind_eq_ok.mp h
        obtain ⟨rest, hrest, h⟩ := bind_eq_ok.mp h
        cases h
        simp [Printed.after, request, hd, ih hrest]
      · next hd =>
        split at h
        · next hc =>
          obtain ⟨⟨c, arg, args⟩, -, h⟩ := bind_eq_ok.mp h
          obtain ⟨rest, hrest, h⟩ := bind_eq_ok.mp h
          cases h
          simp [Printed.after, request, hc, ih hrest]
        · next hc =>
          obtain ⟨rest, hrest, h⟩ := bind_eq_ok.mp h
          cases h
          simp [Printed.after, request, hs, hd, hc, ih hrest]

private theorem request_ne_uint (ch : Char) : request ch ≠ some .uint := by
  rw [request]
  split
  · simp
  · split <;> simp

private theorem hex_notMem_of_requests {items : List Item}
    (h : (arguments items).map Prod.fst = (format items).filterMap request) (value : UInt32) :
    Item.hex value ∉ items := by
  intro hmem
  have huint : ArgType.uint ∈ (arguments items).map Prod.fst := by
    apply List.mem_map.mpr
    exact ⟨(.uint, .uint value), List.mem_filterMap.mpr ⟨_, hmem, rfl⟩, rfl⟩
  rw [h] at huint
  obtain ⟨ch, -, hch⟩ := List.mem_filterMap.mp huint
  exact request_ne_uint ch hch

private theorem length_requests_item {item : Item} (h : ∀ value, item ≠ .hex value) :
    (item.format.filterMap request).length =
      item.arg.toList.length + if ¬item.Handled then 1 else 0 := by
  cases item with
  | literal ch plain =>
    simp only [Item.format, Item.arg, Item.Handled]
    by_cases hs : ch = 's'
    · simp [hs, request]
    · by_cases hd : ch = 'd'
      · simp [hd, request]
      · by_cases hc : ch = 'c'
        · simp [hc, request]
        · simp [hs, hd, hc, request]
  | decimal value => simp [Item.format, Item.arg, Item.Handled, request]
  | string text => simp [Item.format, Item.arg, Item.Handled, request]
  | char value => simp [Item.format, Item.arg, Item.Handled, request]
  | hex value => exact absurd rfl (h value)

/-- Every item that is not handled is one request too many. -/
private theorem length_requests {items : List Item} (h : ∀ value, Item.hex value ∉ items) :
    ((format items).filterMap request).length =
      (arguments items).length + items.countP (fun item ↦ ¬item.Handled) := by
  induction items with
  | nil => rfl
  | cons item items ih =>
    have hrest := ih (fun value hv ↦ h value (List.mem_cons_of_mem _ hv))
    have hitem : ∀ value, item ≠ .hex value := by
      rintro value rfl
      exact h value List.mem_cons_self
    rw [format_cons, arguments_cons, List.filterMap_append, List.length_append,
      List.length_append, List.countP_cons, hrest, length_requests_item hitem]
    simp only [decide_eq_true_eq]
    omega

private theorem handled_of_likePrintf {items : List Item} (h : LikePrintf items) :
    ∀ item ∈ items, item.Handled := by
  have hreq : (arguments items).map Prod.fst = (format items).filterMap request :=
    requests_of_printfLog h
  have hlen := length_requests (hex_notMem_of_requests hreq)
  rw [← hreq, List.length_map] at hlen
  have hnone : items.countP (fun item ↦ ¬item.Handled) = 0 := by omega
  rw [List.countP_eq_zero] at hnone
  intro item hitem
  simpa using hnone item hitem

/-- The formatter behaves like `printf` exactly on the formats in which no literal character
is one of its letters `s`, `d`, `c` and no conversion is `%x`. -/
theorem likePrintf_iff (items : List Item) :
    LikePrintf items ↔
      (∀ ch plain, Item.literal ch plain ∈ items → ch ≠ 's' ∧ ch ≠ 'd' ∧ ch ≠ 'c') ∧
        ∀ value, Item.hex value ∉ items := by
  constructor
  · intro h
    have hall := handled_of_likePrintf h
    exact ⟨fun ch plain hm ↦ hall _ hm, fun value hm ↦ hall _ hm⟩
  · rintro ⟨hliteral, hhex⟩
    apply likePrintf_of_handled
    intro item hitem
    cases item with
    | literal ch plain => exact hliteral ch plain hitem
    | decimal value => trivial
    | string text => trivial
    | char value => trivial
    | hex value => exact hhex value hitem

/-- The message of a waiting worker (threadpool.c:88), for thread 7. -/
def waitingMessage : List Item :=
  [.decimal 88, .literal ' ' (by decide), .string "thread 0x".toList, .hex 7,
    .literal ' ' (by decide), .string "is waitting".toList]

/-- Nothing is taken for the `%x` of that message, so that its last `%s` is given the number of
the thread as the address of a string; and a literal letter takes an argument that is not
there. -/
theorem waitingMessage_misread :
    format waitingMessage = "%d %s%x %s".toList ∧
    printfLog (format waitingMessage) ((arguments waitingMessage).map Prod.snd) =
      .error ⟨.string, some (.uint 7)⟩ ∧
    ¬LikePrintf waitingMessage ∧
    printfLog (format [.literal 'd' (by decide)]) [] = .error ⟨.int, none⟩ := by
  have hrun : printfLog (format waitingMessage) ((arguments waitingMessage).map Prod.snd) =
      .error ⟨.string, some (.uint 7)⟩ := by rfl
  refine ⟨by decide, hrun, ?_, by rfl⟩
  rw [LikePrintf, hrun]
  exact nofun

end DupDistribute.Log
