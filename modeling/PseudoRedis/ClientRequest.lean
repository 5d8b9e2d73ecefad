/-
This file embeds the half of `client.c` that sends requests: one turn of the loop of
`main`, from the line `fgets` read to the bytes `send_request` writes, and what the
server finds in them. The name of the command is copied to an array of `NAME_LEN` bytes
and ended with a zero. A word that fills the array is noticed, but sent all the same,
and its zero lies outside.
-/

import PseudoRedis.Framing
import PseudoRedis.Capacity

namespace PseudoRedis

/-! ### One line of input -/

def nameLen : Nat := 16

/-- The size of `buf`. -/
def bufSize : Nat := 1024 * 1024

def isalpha (char : UInt8) : Bool :=
  (65 ≤ char && char ≤ 90) || (97 ≤ char && char ≤ 122)

/-- What the client takes from its surroundings: the number it got when it connected, and whether an
allocation succeeds. -/
structure ClientEnv where
  id : Nat
  malloc : Nat → Bool

/-- The buffer after `fgets`: the line, a zero, and what was there behind. -/
def fgets (buf line : Bytes) : Bytes := line ++ 0 :: buf.drop (line.length + 1)

/-- The two loops over the first `len` bytes: where the word starts and where it ends, or where its
first 16 letters do. -/
def scanWord (buf : Bytes) (len : Nat) : Nat × Nat :=
  let start := ((buf.take len).takeWhile isspace).length
  (start, start + min (((buf.take len).drop start).takeWhile isalpha).length 16)

/-- The letters and a zero, in the array. -/
def copyName (name buf : Bytes) (start last : Nat) : Except Fault Bytes :=
  (store name 0 ((buf.drop start).take (last - start))).bind fun name =>
    store name (last - start) [0]

/-- The bytes written, or none if there is no memory for the request. -/
def sendRequest (env : ClientEnv) (name str : Bytes) (len : Nat) : Except Fault (Option Bytes) :=
  if env.malloc (toSize (sizeofRequest + len)) = false then .ok none
  else if str.length < len then .error .outOfBounds
  else .ok (some (name.take nameLen ++ littleEndian32 env.id ++ littleEndian32 len ++ str.take len))

/-- What comes of a line: its length, where the word ends, whether the command is called invalid,
and what is sent. -/
structure Turn where
  len : Nat
  last : Nat
  warned : Bool
  sent : Option Bytes

/-- The loop of `main` up to `send_request`, on the buffer `fgets` filled. -/
def clientTurn (env : ClientEnv) (name buf : Bytes) : Except Fault Turn :=
  let len := (cstring buf).length
  if len = 0 then .error .outOfBounds
  else
    match store buf (len - 1) [0] with
    | .error stop => .error stop
    | .ok buf =>
        let (start, last) := scanWord buf len
        match copyName name buf start last with
        | .error stop => .error stop
        | .ok name =>
            match sendRequest env name (buf.drop last) (toSize (len - last - 1)) with
            | .error stop => .error stop
            | .ok sent => .ok ⟨len, last, 16 ≤ last - start + 1, sent⟩

example : ∃ last len, clientTurn ⟨5, fun _ => true⟩ (List.replicate 16 7)
    (fgets [] (bytes " get a\n")) = .ok ⟨len, last, false, some (bytes "get" ++
      0 :: List.replicate 12 7 ++ littleEndian32 5 ++ littleEndian32 2 ++ bytes " a")⟩ :=
  ⟨_, _, rfl⟩

/-! ### Scanning a line -/

theorem isspace_of_isalpha {char : UInt8} (letter : isalpha char = true) :
    isspace char = false := by
  have large : 65 ≤ char.toNat := by
    simp only [isalpha, Bool.or_eq_true, Bool.and_eq_true, decide_eq_true_eq,
      UInt8.le_iff_toNat_le] at letter
    have upper : (65 : UInt8).toNat = 65 := rfl
    have lower : (97 : UInt8).toNat = 97 := rfl
    rcases letter with ⟨first, -⟩ | ⟨first, -⟩ <;> omega
  rw [isspace, Bool.or_eq_false_iff, beq_eq_false_iff_ne, Bool.and_eq_false_iff]
  refine ⟨?_, Or.inr (decide_eq_false fun below => ?_)⟩
  · rintro rfl
    exact absurd large (by decide)
  · have most := UInt8.le_iff_toNat_le.mp below
    have thirteen : (13 : UInt8).toNat = 13 := rfl
    omega

/-- A line without zeros: white space, a word of letters, and the rest up to the newline. -/
structure InputLine (blank word rest : Bytes) : Prop where
  space : ∀ char ∈ blank, isspace char = true
  letters : ∀ char ∈ word, isalpha char = true
  nonempty : word ≠ []
  ends : ∀ char, rest.head? = some char → isalpha char = false
  noZero : ∀ char ∈ blank ++ word ++ rest ++ [10], char ≠ 0
  short : (blank ++ word ++ rest ++ [10]).length < bufSize - 1

theorem cstring_fgets {line : Bytes} (noZero : ∀ char ∈ line, char ≠ 0) (buf : Bytes) :
    cstring (fgets buf line) = line := by
  rw [cstring, fgets, List.takeWhile_append_of_pos fun char member =>
    bne_iff_ne.mpr (noZero char member), List.takeWhile_cons_of_neg (by decide), List.append_nil]

/-- The newline becomes a zero. -/
theorem store_newline (buf front : Bytes) :
    store (fgets buf (front ++ [10])) front.length [0] =
      .ok (front ++ 0 :: 0 :: buf.drop (front.length + 2)) := by
  have fits : front.length + [(0 : UInt8)].length ≤ (fgets buf (front ++ [10])).length := by
    rw [fgets, List.append_assoc, List.length_append]
    exact Nat.add_le_add_left (Nat.succ_le_succ (Nat.zero_le _)) _
  have whole : fgets buf (front ++ [10]) = front ++ ([10] ++ 0 :: buf.drop (front.length + 2)) := by
    rw [fgets, List.append_assoc, List.length_append]
    rfl
  have behind : front.length + [(0 : UInt8)].length = (front ++ [10]).length := by
    rw [List.length_append]
    rfl
  rw [store, if_pos fits, whole, List.take_left, behind, ← List.append_assoc, List.drop_left,
    List.append_assoc]
  rfl

/-- The word is found, or its first 16 letters. -/
theorem scanWord_line {blank word rest : Bytes} (input : InputLine blank word rest) (tail : Bytes) :
    scanWord (blank ++ word ++ rest ++ 0 :: tail) (blank ++ word ++ rest ++ [(0 : UInt8)]).length =
      (blank.length, blank.length + min word.length 16) := by
  have cut : (blank ++ word ++ rest ++ 0 :: tail).take
      (blank ++ word ++ rest ++ [(0 : UInt8)]).length = blank ++ (word ++ (rest ++ [0])) := by
    rw [List.append_cons (blank ++ word ++ rest) 0 tail, List.take_left, List.append_assoc,
      List.append_assoc]
  obtain ⟨first, letters, split⟩ := List.exists_cons_of_ne_nil input.nonempty
  have letter : isalpha first = true := input.letters first (split ▸ List.mem_cons_self)
  have blanks : (blank ++ (word ++ (rest ++ [0]))).takeWhile isspace = blank := by
    rw [List.takeWhile_append_of_pos input.space, split, List.cons_append,
      List.takeWhile_cons_of_neg (Bool.eq_false_iff.mp (isspace_of_isalpha letter)),
      List.append_nil]
  have stops : (rest ++ [0]).takeWhile isalpha = [] := by
    cases rest with
    | nil => rfl
    | cons char others =>
      rw [List.cons_append,
        List.takeWhile_cons_of_neg (Bool.eq_false_iff.mp (input.ends char rfl))]
  rw [scanWord]
  simp only [cut, blanks, List.drop_left, List.takeWhile_append_of_pos input.letters, stops,
    List.append_nil]

/-! ### The name -/

/-- A name that leaves room for the zero is copied. -/
theorem copyName_word {name buf word : Bytes} {start : Nat} (size : name.length = nameLen)
    (found : (buf.drop start).take word.length = word) (short : word.length < nameLen) :
    copyName name buf start (start + word.length) =
      .ok (word ++ 0 :: name.drop (word.length + 1)) := by
  have fits : 0 + word.length ≤ name.length := by omega
  have fitsEnding : word.length + [(0 : UInt8)].length ≤
      (word ++ name.drop word.length).length := by
    rw [List.length_append, List.length_drop, List.length_singleton]
    omega
  have first : store name 0 word = .ok (word ++ name.drop word.length) := by
    rw [store, if_pos fits, List.take_zero, List.nil_append, Nat.zero_add]
  rw [copyName, Nat.add_sub_cancel_left, found, first]
  show store (word ++ name.drop word.length) word.length [0] = _
  rw [store, if_pos fitsEnding, List.take_left, List.append_assoc, ← List.drop_drop,
    List.drop_left, List.drop_drop]
  rfl

/-- The zero behind 16 letters lies outside the array. -/
theorem copyName_full {name buf : Bytes} {start : Nat} (size : name.length = nameLen) :
    copyName name buf start (start + 16) = .error .outOfBounds := by
  rw [copyName, Nat.add_sub_cancel_left]
  cases first : store name 0 ((buf.drop start).take 16) with
  | error stop =>
    rw [store] at first
    split at first
    · cases first
    · cases first
      rfl
  | ok written =>
    have beyond : ¬ 16 + [(0 : UInt8)].length ≤ written.length := by
      rw [store_length first, size]
      decide
    show store written 16 [0] = _
    rw [store, if_neg beyond]

/-! ### What the server finds -/

/-- A line has the server find its word and its rest, or nothing is sent because the word is too
long or there is no memory. No zero is written outside the array of the name, and the length that
is sent does not wrap. -/
def SendsLine (env : ClientEnv) (name buf blank word rest : Bytes) : Prop :=
  ∃ turn, clientTurn env name (fgets buf (blank ++ word ++ rest ++ [10])) = .ok turn ∧
    turn.last + 1 ≤ turn.len ∧
    (turn.sent = none →
      nameLen ≤ word.length ∨ env.malloc (sizeofRequest + rest.length) = false) ∧
    ∀ wire, turn.sent = some wire → ∀ (buffer : Buffer) (fd : Nat),
      cstring ((buffer.overlay wire).request fd).command = word ∧
      word.length < ((buffer.overlay wire).request fd).command.length ∧
      ((buffer.overlay wire).request fd).data = rest ∧
      ((buffer.overlay wire).request fd).len = rest.length

variable {env : ClientEnv} {name buf blank word rest : Bytes}

/-- A line is read and scanned; the word decides the rest. -/
theorem clientTurn_line (input : InputLine blank word rest) {front : Bytes}
    (split : front = blank ++ word ++ rest) :
    clientTurn env name (fgets buf (front ++ [10])) =
      match copyName name (front ++ 0 :: 0 :: buf.drop (front.length + 2)) blank.length
        (blank.length + min word.length 16) with
      | .error stop => .error stop
      | .ok name =>
          match sendRequest env name ((front ++ 0 :: 0 :: buf.drop (front.length + 2)).drop
              (blank.length + min word.length 16))
            (toSize ((front ++ [(10 : UInt8)]).length -
              (blank.length + min word.length 16 : Nat) - 1)) with
          | .error stop => .error stop
          | .ok sent =>
              .ok ⟨(front ++ [(10 : UInt8)]).length, blank.length + min word.length 16,
                16 ≤ blank.length + min word.length 16 - blank.length + 1, sent⟩ := by
  subst split
  have length : (blank ++ word ++ rest ++ [(10 : UInt8)]).length =
      (blank ++ word ++ rest).length + 1 := List.length_append
  have positive : ¬ (blank ++ word ++ rest ++ [(10 : UInt8)]).length = 0 := by omega
  have before : (blank ++ word ++ rest ++ [(10 : UInt8)]).length - 1 =
      (blank ++ word ++ rest).length := by omega
  have scanned := scanWord_line input (0 :: buf.drop ((blank ++ word ++ rest).length + 2))
  have same : (blank ++ word ++ rest ++ [(0 : UInt8)]).length =
      (blank ++ word ++ rest ++ [(10 : UInt8)]).length := by
    rw [List.length_append, length]
    rfl
  rw [same] at scanned
  rw [clientTurn]
  simp only [cstring_fgets input.noZero, if_neg positive, before, store_newline, scanned]

/-- The request the client makes of a word and the rest of the line. -/
def lineRequest (id : Nat) (name word rest : Bytes) (short : rest.length ≤ inBufSize) :
    Request where
  command := word ++ 0 :: name.drop (word.length + 1)
  clientId := id
  len := rest.length
  data := rest
  inBuffer := short

theorem sendRequest_line (name tail : Bytes) (size : (word ++ 0 :: name).length = nameLen)
    (short : rest.length ≤ inBufSize) :
    sendRequest env (word ++ 0 :: name) (rest ++ tail) rest.length =
      .ok (if env.malloc (sizeofRequest + rest.length) = false then none
        else some (word ++ 0 :: name ++ littleEndian32 env.id ++ littleEndian32 rest.length ++
          rest)) := by
  have small : toSize (sizeofRequest + rest.length : Nat) = sizeofRequest + rest.length := by
    refine toSize_natCast (Nat.lt_of_le_of_lt (Nat.add_le_add_left short _) ?_)
    decide
  have inside : ¬ (rest ++ tail).length < rest.length := by
    rw [List.length_append]
    omega
  rw [sendRequest, ← Nat.cast_add, small, if_neg inside, ← size, List.take_length, List.take_left]
  split <;> rfl

/-- The server finds the word and the rest in the request. -/
theorem lineRequest_found (id : Nat) (size : name.length = nameLen) (short : word.length < nameLen)
    (fits : rest.length ≤ inBufSize) (noZero : ∀ char ∈ word, char ≠ 0) (buffer : Buffer)
    (fd : Nat) :
    cstring ((buffer.overlay (lineRequest id name word rest fits).wire).request fd).command = word ∧
      word.length <
        ((buffer.overlay (lineRequest id name word rest fits).wire).request fd).command.length ∧
      ((buffer.overlay (lineRequest id name word rest fits).wire).request fd).data = rest ∧
      ((buffer.overlay (lineRequest id name word rest fits).wire).request fd).len =
        rest.length := by
  have sixteen : (word ++ 0 :: name.drop (word.length + 1)).length = 16 := by
    have limit : nameLen = 16 := rfl
    rw [List.length_append, List.length_cons, List.length_drop, size]
    omega
  rw [request_overlay buffer fd ⟨sixteen, rfl⟩]
  refine ⟨?_, Nat.lt_of_lt_of_eq short sixteen.symm, rfl, rfl⟩
  show cstring (word ++ 0 :: name.drop (word.length + 1)) = word
  rw [cstring, List.takeWhile_append_of_pos fun char member => bne_iff_ne.mpr (noZero char member),
    List.takeWhile_cons_of_neg (by decide), List.append_nil]

theorem InputLine.rest_le (input : InputLine blank word rest) : rest.length ≤ inBufSize := by
  have line := input.short
  simp only [List.length_append, List.length_singleton] at line
  have limit : bufSize = inBufSize := rfl
  omega

/-- The length that is sent. -/
theorem InputLine.left (input : InputLine blank word rest) :
    toSize ((blank ++ word ++ rest ++ [(10 : UInt8)]).length -
      (blank.length + word.length : Nat) - 1) = rest.length := by
  have exact : ((blank ++ word ++ rest ++ [(10 : UInt8)]).length : Int) -
      (blank.length + word.length : Nat) - 1 = (rest.length : Nat) := by
    simp only [List.length_append, List.length_singleton]
    omega
  rw [exact]
  exact toSize_natCast (Nat.lt_of_le_of_lt input.rest_le (by decide))

/-- With a word that leaves room for the zero the request is made of the line. -/
theorem clientTurn_short (input : InputLine blank word rest) (size : name.length = nameLen)
    (short : word.length < nameLen) :
    clientTurn env name (fgets buf (blank ++ word ++ rest ++ [10])) =
      .ok ⟨(blank ++ word ++ rest ++ [(10 : UInt8)]).length, blank.length + word.length,
        16 ≤ blank.length + word.length - blank.length + 1,
        if env.malloc (sizeofRequest + rest.length) = false then none
        else some (lineRequest env.id name word rest input.rest_le).wire⟩ := by
  have letters : min word.length 16 = word.length := Nat.min_eq_left (Nat.le_of_lt short)
  have found : ((blank ++ word ++ rest ++
      0 :: 0 :: buf.drop ((blank ++ word ++ rest).length + 2)).drop blank.length).take
        word.length = word := by
    rw [List.append_assoc, List.append_assoc, List.drop_left, List.take_left]
  have behind : (blank ++ word ++ rest ++
      0 :: 0 :: buf.drop ((blank ++ word ++ rest).length + 2)).drop
        (blank.length + word.length) =
      rest ++ 0 :: 0 :: buf.drop ((blank ++ word ++ rest).length + 2) := by
    rw [← List.length_append, List.append_assoc (blank ++ word), List.drop_left]
  have sixteen : (word ++ 0 :: name.drop (word.length + 1)).length = nameLen := by
    rw [List.length_append, List.length_cons, List.length_drop, size]
    omega
  rw [clientTurn_line input rfl]
  simp only [letters, copyName_word size found short, behind, input.left,
    sendRequest_line _ _ sixteen input.rest_le]
  rfl

/-- A client sends what the line says exactly if the word leaves room for a zero in the array. -/
theorem client_sends_line_iff (env : ClientEnv) (name buf : Bytes)
    (input : InputLine blank word rest) (size : name.length = nameLen) :
    SendsLine env name buf blank word rest ↔ word.length < nameLen := by
  constructor
  · rintro ⟨turn, ran, -⟩
    by_contra long
    have full : min word.length 16 = 16 := Nat.min_eq_right (Nat.le_of_not_lt long)
    rw [clientTurn_line input rfl, full, copyName_full size] at ran
    cases ran
  · intro short
    have noZero : ∀ char ∈ word, char ≠ 0 := fun char member =>
      input.noZero char (by simp only [List.mem_append, member, or_true, true_or])
    refine ⟨_, clientTurn_short input size short, ?_, fun nothing => ?_, fun wire sent => ?_⟩
    · simp only [List.length_append, List.length_singleton]
      omega
    · by_contra otherwise
      obtain ⟨-, memory⟩ := not_or.mp otherwise
      rw [if_neg memory] at nothing
      cases nothing
    · by_cases memory : env.malloc (sizeofRequest + rest.length) = false
      · rw [if_pos memory] at sent
        cases sent
      · rw [if_neg memory] at sent
        cases sent
        exact lineRequest_found env.id size short input.rest_le noZero

/-- A line of one letter again and again, and a rest. -/
theorem inputLine_replicate {count : Nat} {rest : Bytes} (nonempty : count ≠ 0)
    (ends : ∀ char, rest.head? = some char → isalpha char = false)
    (noZero : ∀ char ∈ rest, char ≠ 0) (short : count + rest.length + 1 < bufSize - 1) :
    InputLine [] (List.replicate count 97) rest where
  space := fun _ member => by cases member
  letters := fun char member => by
    rw [List.eq_of_mem_replicate member]
    rfl
  nonempty := fun empty => nonempty ((List.replicate_eq_nil_iff 97).mp empty)
  ends := ends
  noZero := by
    simp only [List.nil_append, List.forall_mem_append]
    refine ⟨⟨fun char member => ?_, noZero⟩, fun char member => ?_⟩
    · rw [List.eq_of_mem_replicate member]
      decide
    · rw [List.mem_singleton.mp member]
      decide
  short := by
    simp only [List.nil_append, List.length_append, List.length_replicate, List.length_singleton]
    exact short

/-- A word of 15 letters is called invalid and sent as it is. -/
theorem client_sends_line_iff_fifteen :
    SendsLine ⟨5, fun _ => true⟩ (List.replicate 16 7) [] [] (List.replicate 15 97)
      (bytes " a") := by
  have ends : ∀ char, (bytes " a").head? = some char → isalpha char = false := by
    intro char first
    cases first
    rfl
  have noZero : ∀ char ∈ bytes " a", char ≠ 0 :=
    List.forall_mem_cons.mpr ⟨by decide, List.forall_mem_singleton.mpr (by decide)⟩
  exact (client_sends_line_iff ⟨5, fun _ => true⟩ (List.replicate 16 7) []
    (inputLine_replicate (by decide) ends noZero (by decide)) rfl).mpr (by decide)

/-- With a word of 16 letters the array is left. -/
theorem client_leaves_name :
    ∃ (env : ClientEnv) (name buf blank word rest : Bytes), InputLine blank word rest ∧
      name.length = nameLen ∧ ¬ SendsLine env name buf blank word rest := by
  refine ⟨⟨5, fun _ => true⟩, List.replicate 16 7, [], [], List.replicate 16 97, [],
    inputLine_replicate (by decide) (fun _ first => by cases first)
      (fun _ member => by cases member) (by decide), rfl, ?_⟩
  rintro ⟨turn, ran, -⟩
  have stopped : clientTurn ⟨5, fun _ => true⟩ (List.replicate 16 7)
      (fgets [] ([] ++ List.replicate 16 97 ++ [] ++ [10])) = .error .outOfBounds := rfl
  rw [stopped] at ran
  cases ran

end PseudoRedis
