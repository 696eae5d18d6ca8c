import FileExchange.Client.Download
import FileExchange.Server.Listing

/-!
# Client.List — `list_files_ssl` against `handle_list_request`

* `sentRecords`   : the records in which the blocks of a reply leave the server;
* `listFilesSsl`  : what a call prints, how it ends, and what it leaves unread;
* `listFilesSsl_of_handleList` : it prints the list that the server has built, however the stream
  is cut, and stops at its end.
-/

namespace FileExchange

open Lib

/-! ## The client -/

/-- What a call has printed, how it ends, and the records it has not read. -/
structure ListCall where
  stdout : Bytes
  outcome : Outcome
  unread : List Bytes
  deriving DecidableEq, Repr

def listRequested : Bytes := ascii "Requesting file list from server...\n"

def listEmpty : Bytes := ascii "No files found on server.\n"

/-- `"File list from server (%lld bytes):\n"`. -/
def listHeading (listLen : Int) : Bytes :=
  ascii "File list from server (" ++ formatInt64 listLen ++ ascii " bytes):\n"

def newline : Bytes := ascii "\n"

/-- `while (total_received < list_len)`, and the newline after it. -/
def displayRest (cut : Bool) : Nat → Int → Int → List Bytes → Bytes → ListCall
  | 0, _, _, records, stdout =>
      { stdout := stdout ++ newline, outcome := .returned 0, unread := records }
  | fuel + 1, totalReceived, listLen, records, stdout =>
      if totalReceived < listLen then
        match sslRead (toRead (listLen - totalReceived)) records with
        | none => { stdout := stdout, outcome := .atEnd cut, unread := [] }
        | some (bytes, rest) =>
            displayRest cut fuel (totalReceived + bytes.length) listLen rest (stdout ++ bytes)
      else { stdout := stdout ++ newline, outcome := .returned 0, unread := records }

/-- A list request on a connection on which `records` arrive before it ends or falls silent;
`asked` tells whether the request is sent. -/
def listFilesSsl (asked cut : Bool) (records : List Bytes) : ListCall :=
  if !asked then { stdout := listRequested, outcome := .returned (-1), unread := records }
  else
    match sslRecvAll responseHeaderSize records with
    | none => { stdout := listRequested, outcome := .atEnd cut, unread := [] }
    | some (header, rest) =>
        let response := ResponseHeader.ofBytes header
        let listLen := response.filesize.toInt
        if response.status ≠ ResponseStatus.success.code then
          { stdout := listRequested, outcome := .returned (-1), unread := rest }
        else if listLen ≤ 0 then
          { stdout := listRequested ++ listEmpty, outcome := .returned 0, unread := rest }
        else displayRest cut listLen.toNat 0 listLen rest (listRequested ++ listHeading listLen)

/-- With enough bytes on the stream, the loop prints what it wants and leaves the rest. -/
theorem displayRest_of_le (cut : Bool) {fuel : Nat} : ∀ {totalReceived listLen : Int}
    {records : List Bytes} {stdout : Bytes}, (listLen - totalReceived).toNat ≤ fuel →
    (listLen - totalReceived).toNat ≤ records.flatten.length →
      let call := displayRest cut fuel totalReceived listLen records stdout
      call.stdout =
          stdout ++ records.flatten.take (listLen - totalReceived).toNat ++ newline ∧
        call.outcome = .returned 0 ∧
        call.unread.flatten = records.flatten.drop (listLen - totalReceived).toNat := by
  induction fuel with
  | zero =>
      intro totalReceived listLen records stdout hfuel _
      have hzero : (listLen - totalReceived).toNat = 0 := Nat.le_zero.1 hfuel
      simp [displayRest, hzero]
  | succ fuel ih =>
      intro totalReceived listLen records stdout hfuel hlen
      by_cases hmore : totalReceived < listLen
      · rcases toRead_bounds (show listLen - totalReceived > 0 by omega) with ⟨hone, hmax⟩
        rw [displayRest, if_pos hmore]
        cases hread : sslRead (toRead (listLen - totalReceived)) records with
        | none =>
            -- the stream cannot end here
            rw [sslRead_eq_none hread, List.length_nil] at hlen
            omega
        | some r =>
            rcases r with ⟨bytes, rest⟩
            rcases sslRead_eq_some hone hread with ⟨hstream, hpos, hle⟩
            have hleft : (listLen - (totalReceived + bytes.length)).toNat =
                (listLen - totalReceived).toNat - bytes.length := by omega
            rw [hstream, List.length_append] at hlen
            -- a read prints what it takes off the rest of the list
            have hrest := @ih (totalReceived + bytes.length) listLen rest (stdout ++ bytes)
              (by omega) (by omega)
            rw [hleft] at hrest
            have htake : bytes.take (listLen - totalReceived).toNat = bytes :=
              List.take_of_length_le (by omega)
            have hdrop : bytes.drop (listLen - totalReceived).toNat = [] :=
              List.drop_of_length_le (by omega)
            rw [hstream, List.take_append, List.drop_append, htake, hdrop, List.nil_append,
              ← List.append_assoc stdout]
            exact hrest
      · have hzero : (listLen - totalReceived).toNat = 0 := by omega
        rw [displayRest, if_neg hmore]
        simp [hzero]

/-- A list and its header, whatever follows them. -/
theorem listFilesSsl_of_response (cut : Bool) {text tail : Bytes} {records : List Bytes}
    (hne : text ≠ []) (hlen : text.length < 2 ^ 31)
    (hrecords : records.flatten =
      (Message.response .success text.length).wire ++ (text ++ tail)) :
    let call := listFilesSsl true cut records
    call.stdout = listRequested ++ listHeading text.length ++ text ++ newline ∧
      call.outcome = .returned 0 ∧ call.unread.flatten = tail := by
  have hwire := Message.length_wire_response .success text.length
  -- the client gets a whole header first
  have hwhole : responseHeaderSize ≤ records.flatten.length := by
    rw [hrecords, List.length_append]
    omega
  rcases Option.isSome_iff_exists.1 (sslRecvAll_isSome hwhole) with ⟨⟨header, rest⟩, hrecv⟩
  rcases sslRecvAll_eq_some hrecv with ⟨hheader, hsplit⟩
  rcases List.append_inj (hsplit.symm.trans hrecords) (hheader.trans hwire.symm) with
    ⟨rfl, hrest⟩
  have hpos : 0 < text.length := List.length_pos_of_ne_nil hne
  rcases ResponseHeader.ofBytes_wire .success (show (0 : Int) ≤ text.length by omega)
    (by omega) with ⟨hstatus, hsize⟩
  have hcall : listFilesSsl true cut records = displayRest cut text.length 0 text.length rest
      (listRequested ++ listHeading text.length) := by
    simp [listFilesSsl, hrecv, hstatus, hsize, hne]
  -- then the loop takes the list off the stream
  have hcount : ((text.length : Int) - 0).toNat = text.length := by omega
  have hmany : ((text.length : Int) - 0).toNat ≤ rest.flatten.length := by
    rw [hrest, List.length_append]
    omega
  have hdisplay := @displayRest_of_le cut _ _ _ _ (listRequested ++ listHeading text.length)
    hcount.le hmany
  rw [hcount, hrest, List.take_left, List.drop_left] at hdisplay
  rw [hcall]
  exact hdisplay

/-! ## The server -/

/-- The records that the server writes for the blocks of a reply; it goes on after a block that is
not sent. -/
def sentRecords (accepts : Nat → Nat → Option Nat) (msgs : List Message) : List Bytes :=
  (msgs.mapIdx fun i m => (sslSendAll (accepts i) m.wire).1).flatten

/-- The stream of a list reply when no write fails. -/
theorem sentRecords_listReply {accepts : Nat → Nat → Option Nat}
    (h : ∀ i j, (accepts i j).isSome = true) {texts : List CString}
    (hlen : (listText texts).length < 2 ^ 31) :
    (sentRecords accepts (listReply texts)).flatten =
      (Message.response .success (listText texts).length).wire ++ listText texts := by
  have hheader : (Message.response .success (listText texts).length).wire.length < 2 ^ 31 := by
    rw [Message.length_wire_response]
    decide
  have hwire : (Message.payload (listText texts)).wire = listText texts := rfl
  simp only [sentRecords, listReply, List.mapIdx_cons, List.mapIdx_nil, List.flatten_cons,
    List.flatten_nil, List.append_nil, List.flatten_append]
  rw [(sslSendAll_of_accepts (h 0) hheader).1, hwire, (sslSendAll_of_accepts (h 1) hlen).1]

/-! ## Both together -/

/-- The server answers with the length of the list and the list; whatever records its bytes arrive
in, and whatever follows them, the client prints the list and stops at its end. -/
theorem listFilesSsl_of_handleList (srv : Server) {env : ListEnv} (hstrdup : env.strdup = true)
    {accepts : Nat → Nat → Option Nat} (haccepts : ∀ i j, (accepts i j).isSome = true)
    (hlen : (listText (listedTexts env 0 (srv.cursor env))).length < 2 ^ 31)
    (cut : Bool) {records : List Bytes} {tail : Bytes}
    (hrecords : records.flatten =
      (sentRecords accepts (handleList srv env).2).flatten ++ tail) :
    let text := listText (listedTexts env 0 (srv.cursor env))
    (handleList srv env).2 = [.response .success text.length, .payload text] ∧
      (sentRecords accepts (handleList srv env).2).flatten =
        (Message.response .success text.length).wire ++ text ∧
      (listFilesSsl true cut records).stdout =
        listRequested ++ listHeading text.length ++ text ++ newline ∧
      (listFilesSsl true cut records).outcome = .returned 0 ∧
      (listFilesSsl true cut records).unread.flatten = tail := by
  intro text
  have hreply : (handleList srv env).2 = listReply (listedTexts env 0 (srv.cursor env)) := by
    simp [handleList_sent, listCrashes, hstrdup]
  have hsent := sentRecords_listReply haccepts hlen
  rw [hreply] at hrecords
  rw [hreply]
  refine ⟨rfl, hsent, ?_⟩
  rw [hsent, List.append_assoc] at hrecords
  have hne : text ≠ [] := List.cons_ne_nil _ _
  exact listFilesSsl_of_response cut hne hlen hrecords

/-- The list after Alice's upload, sent in pieces of up to 4 bytes and received in others. -/
theorem listFilesSsl_afterAlice :
    let text := ascii "[" ++ emptyObject ++ ascii "," ++ emptyObject ++ ascii "]"
    let wire := (Message.response .success 7).wire ++ text
    (listFilesSsl true true [wire.take 18, (wire.drop 18).take 3, wire.drop 21]).stdout =
      listRequested ++ ascii "File list from server (7 bytes):\n" ++ text ++ ascii "\n" := by
  intro text wire
  let env := ListEnv.ok fun _ => emptyObject
  have hstream : [wire.take 18, (wire.drop 18).take 3, wire.drop 21].flatten =
      (sentRecords (fun _ _ => some 3) (handleList afterAlice env).2).flatten ++ [] := by decide
  have haccepts : ∀ i j, ((fun _ _ => some 3 : Nat → Nat → Option Nat) i j).isSome = true :=
    fun _ _ => rfl
  have hlist := listFilesSsl_of_handleList afterAlice (show env.strdup = true from rfl) haccepts
    (by decide) true hstream
  have hheading : listHeading 7 = ascii "File list from server (7 bytes):\n" := by
    rw [listHeading, show (7 : Int) = ((7 : Nat) : Int) from rfl, formatInt64_natCast]
    decide
  calc (listFilesSsl true true [wire.take 18, (wire.drop 18).take 3, wire.drop 21]).stdout
      = listRequested ++ listHeading 7 ++ text ++ newline := hlist.2.2.1
    _ = listRequested ++ ascii "File list from server (7 bytes):\n" ++ text ++ ascii "\n" := by
        rw [hheading, newline]

end FileExchange
