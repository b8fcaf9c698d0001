import Paynad.Transactions.TransactionsService

/-!
# The handler of the queue

`onTransactionRecorded` validates the payload by hand and settles the delivery itself: an
acknowledgement for what is recorded, known or malformed, a requeue for what failed.
`plainToInstance` may throw, and `validate` throws on null, both ahead of the `try`; other
values that are no objects have no metadata to be validated by and are reported as unknown.
What class-transformer makes of a payload is given from outside.
-/

namespace Paynad

namespace Transactions

open Shared

/-- A call to the database: the rows it meets, what the server would generate for an
insertion, and how it goes. -/
structure Exchange where
  rows : List Transaction
  generated : Generated
  fault : Fault

structure Exchanges where
  lookup : Exchange
  append : Exchange
  reread : Exchange

/-- `record` from a stage on, over the exchanges that are left: the row it has committed
and the stage it ends in. -/
def recordFrom (timestamps : Timestamps) (request : RecordTransactionRequest) :
    Stage → List Exchange → Option Transaction × Stage
  | stage, [] => (none, stage)
  | stage, x :: xs =>
      if stage.over then
        (none, stage)
      else
        let ended := resume timestamps request x.rows x.generated x.fault stage
        let rest := recordFrom timestamps request ended.2 xs
        (ended.1.or rest.1, rest.2)

def record (timestamps : Timestamps) (request : RecordTransactionRequest)
    (exchanges : Exchanges) : Option Transaction × Stage :=
  recordFrom timestamps request .looking
    [exchanges.lookup, exchanges.append, exchanges.reread]

inductive Settlement where
  | ack
  | nack (allUpTo requeue : Bool)
  deriving DecidableEq, Repr

/-- What a delivery leaves: its settlements, and the row it has appended. -/
structure Handled where
  settlements : List Settlement
  appended : Option Transaction

/-- What the decorators see of a property after `plainToInstance`: a text, a number or a
literal is carried over, and an array or an object is rebuilt. -/
inductive Carried : Option Json → Option Json → Prop
  | same (value : Option Json) : Carried value value
  | arr (items items' : List Json) : Carried (some (.arr items)) (some (.arr items'))
  | obj (entries entries' : JsonObject) : Carried (some (.obj entries)) (some (.obj entries'))

/-- What is relied on of `plainToInstance(RecordTransactionRequest, …)`, which may also
throw: null stays null, the instance of an object carries its properties, and there is no
instance of anything else. -/
structure Instantiates (plainToInstance : Json → Option Json) : Prop where
  null : plainToInstance .null = some .null
  obj : ∀ entries value, plainToInstance (.obj entries) = some value →
    ∃ fields, value = .obj fields ∧ ∀ property ∈ RecordTransactionRequest.properties,
      Carried (entries.lookup property) (fields.lookup property)
  other : ∀ payload value, plainToInstance payload = some value → payload ≠ .null →
    (∀ entries, payload ≠ .obj entries) → value ≠ .null ∧ ∀ fields, value ≠ .obj fields

def onTransactionRecorded (plainToInstance : Json → Option Json) (unicode : Unicode)
    (timestamps : Timestamps) (payload : Json) (exchanges : Exchanges) : Handled :=
  match plainToInstance payload with
  -- Nothing catches what is thrown ahead of the `try`.
  | none => ⟨[], none⟩
  | some .null => ⟨[], none⟩
  | some (.obj fields) =>
      match invalidProperties (RecordTransactionRequest.rules unicode timestamps) fields,
        RecordTransactionRequest.read fields with
      | [], some request =>
          let ended := record timestamps request exchanges
          match ended.2 with
          | .returned _ => ⟨[.ack], ended.1⟩
          | .thrown _ => ⟨[.nack false true], ended.1⟩
          | _ => ⟨[], ended.1⟩
      | _, _ => ⟨[.ack], none⟩
  | some _ => ⟨[.ack], none⟩

def Passes (unicode : Unicode) (timestamps : Timestamps) (payload : Json)
    (request : RecordTransactionRequest) : Prop :=
  ∃ entries, payload = .obj entries ∧
    invalidProperties (RecordTransactionRequest.rules unicode timestamps) entries = [] ∧
    RecordTransactionRequest.read entries = some request

section

variable {plainToInstance : Json → Option Json} {unicode : Unicode} {timestamps : Timestamps}
  {payload value : Json} {request : RecordTransactionRequest} {exchanges : Exchanges} {row : Transaction}
  {generated : Generated}

/-! ## What `record` ends in -/

def Stage.Ended (stage : Stage) : Prop :=
  (∃ outcome, stage = .returned outcome) ∨ ∃ error, stage = .thrown error

theorem over_of_ended {stage : Stage} (h : stage.Ended) : stage.over = true := by
  rcases h with ⟨outcome, rfl⟩ | ⟨error, rfl⟩ <;> rfl

theorem recordFrom_of_over {stage : Stage} (h : stage.over = true) (xs : List Exchange) :
    recordFrom timestamps request stage xs = (none, stage) := by
  cases xs with
  | nil => rfl
  | cons x xs => exact if_pos h

theorem recordFrom_cons {stage : Stage} (h : stage.over = false) (x : Exchange)
    (xs : List Exchange) :
    recordFrom timestamps request stage (x :: xs) =
      ((resume timestamps request x.rows x.generated x.fault stage).1.or
          (recordFrom timestamps request
            (resume timestamps request x.rows x.generated x.fault stage).2 xs).1,
        (recordFrom timestamps request
          (resume timestamps request x.rows x.generated x.fault stage).2 xs).2) := by
  rw [recordFrom, if_neg (by rw [h]; decide)]

theorem resume_looking (timestamps : Timestamps) (request : RecordTransactionRequest)
    (x : Exchange) :
    (resume timestamps request x.rows x.generated x.fault .looking).2.Ended ∨
      (resume timestamps request x.rows x.generated x.fault .looking).2 = .appending := by
  simp only [resume]
  split
  · split
    · exact .inl (.inl ⟨_, rfl⟩)
    · exact .inr rfl
  · exact .inl (.inr ⟨_, rfl⟩)
  · exact .inl (.inr ⟨_, rfl⟩)

theorem ended_catchError (error : DriverError) :
    (catchError error).Ended ∨ catchError error = .rereading error := by
  unfold catchError
  split_ifs
  · exact .inr rfl
  · exact .inl (.inr ⟨error, rfl⟩)

theorem resume_appending (timestamps : Timestamps) (request : RecordTransactionRequest)
    (x : Exchange) :
    (resume timestamps request x.rows x.generated x.fault .appending).2.Ended ∨
      ∃ error, (resume timestamps request x.rows x.generated x.fault .appending).2 =
        .rereading error := by
  have hcatch : ∀ error : DriverError,
      (catchError error).Ended ∨ ∃ error', catchError error = .rereading error' := fun error =>
    (ended_catchError error).imp_right fun h => ⟨error, h⟩
  simp only [resume]
  split
  · exact hcatch _
  · exact .inl (.inl ⟨_, rfl⟩)
  · exact hcatch _
  · exact hcatch _
  · exact hcatch _

theorem resume_rereading (timestamps : Timestamps) (request : RecordTransactionRequest)
    (x : Exchange) (error : DriverError) :
    (resume timestamps request x.rows x.generated x.fault (.rereading error)).2.Ended := by
  simp only [resume]
  split
  · split
    · exact .inl ⟨_, rfl⟩
    · exact .inr ⟨_, rfl⟩
  · exact .inr ⟨_, rfl⟩
  · exact .inr ⟨_, rfl⟩

/-- Three exchanges are enough. -/
theorem record_ended (timestamps : Timestamps) (request : RecordTransactionRequest)
    (exchanges : Exchanges) : (record timestamps request exchanges).2.Ended := by
  rw [record, recordFrom_cons rfl]
  rcases resume_looking timestamps request exchanges.lookup with
    hended | happending
  · rw [recordFrom_of_over (over_of_ended hended)]
    exact hended
  · rw [happending, recordFrom_cons rfl]
    rcases resume_appending timestamps request exchanges.append with
      hended | ⟨error, hrereading⟩
    · rw [recordFrom_of_over (over_of_ended hended)]
      exact hended
    · rw [hrereading, recordFrom_cons rfl]
      have hended := resume_rereading timestamps request exchanges.reread error
      rw [recordFrom_of_over (over_of_ended hended)]
      exact hended

/-! ## What a healthy database stores -/

/-- No failure, no row that is lost between the calls, and a generated id and reference
that no row has. -/
structure Healthy (exchanges : Exchanges) : Prop where
  lookup : exchanges.lookup.fault = .none
  append : exchanges.append.fault = .none
  reread : exchanges.reread.fault = .none
  grows : ∀ row ∈ exchanges.append.rows, row ∈ exchanges.reread.rows
  fresh : ∀ row ∈ exchanges.append.rows, row.id ≠ exchanges.append.generated.id ∧
    row.reference ≠ exchanges.append.generated.reference

theorem length_of_referencePattern {family : ReferencePrefix} {value : String}
    (h : referencePattern family value = true) : value.toList.length = 30 := by
  simp only [referencePattern, Bool.and_eq_true, beq_iff_eq] at h
  obtain ⟨⟨hhead, hlength⟩, -⟩ := h
  have hfour : (value.toList.take 4).length = 4 := by
    rw [hhead]
    cases family <;> decide
  simp only [List.length_take, List.length_drop, referenceBodyLength] at hfour hlength
  omega

/-- The columns take every valid request. -/
theorem fits_of_valid (h : request.Valid timestamps)
    (hrow : Transaction.ofRequest timestamps request generated = some row) :
    row.fits = true := by
  obtain ⟨instant, -, rfl⟩ := Option.map_eq_some_iff.mp hrow
  have hreference := length_of_referencePattern generated.wellFormed
  have hpayment := length_of_referencePattern h.paymentReference
  have hwallet := length_of_referencePattern h.walletReference
  have huser := length_of_referencePattern h.userReference
  have hid : request.transactionId.toList.length ≤ 64 := by
    have hregex := h.transactionId
    simp only [transactionIdRegex, Bool.and_eq_true, decide_eq_true_eq] at hregex
    exact hregex.1.2
  have hdescription : request.description.toList.length ≤ 255 := h.description_length
  obtain ⟨hmin, hmax, -⟩ := isValidAmount_int.mp h.amount
  have htype : request.type.text.toList.length ≤ 16 := by cases request.type <;> decide
  have hcurrency : request.currency.code.toList.length ≤ 3 := by cases request.currency; decide
  have hstatus : request.status.text.toList.length ≤ 16 := by cases request.status <;> decide
  simp only [Transaction.fits, Bool.and_eq_true, decide_eq_true_eq]
  omega

/-- Where the instant can be stored, a healthy database takes a valid request. -/
theorem record_of_healthy (hvalid : request.Valid timestamps) (hhealthy : Healthy exchanges)
    {instant : ℤ} (hparse : timestamps.parse request.occurredAt = some instant)
    (hstorable : timestamps.storable instant = true) :
    ∃ outcome, (record timestamps request exchanges).2 = .returned outcome ∧
      outcome.transaction.transactionId = request.transactionId := by
  obtain ⟨row, hrow⟩ : ∃ row, Transaction.ofRequest timestamps request
      exchanges.append.generated = some row := by
    rw [Transaction.ofRequest, hparse]
    exact ⟨_, rfl⟩
  have hid := transactionId_ofRequest hrow
  have hfits := fits_of_valid hvalid hrow
  have hinstant : row.occurredAt = instant := by
    obtain ⟨instant', hparse', rfl⟩ := Option.map_eq_some_iff.mp hrow
    exact Option.some.inj (hparse'.symm.trans hparse)
  have hpk : row.id = exchanges.append.generated.id ∧
      row.reference = exchanges.append.generated.reference := by
    obtain ⟨instant', -, rfl⟩ := Option.map_eq_some_iff.mp hrow
    exact ⟨rfl, rfl⟩
  rw [record, recordFrom_cons rfl]
  simp only [resume, hhealthy.lookup]
  cases hlookup : findByTransactionId exchanges.lookup.rows request.transactionId with
  | some known =>
      simp only [recordFrom_of_over (show (Stage.returned ⟨known, false⟩).over = true from rfl)]
      exact ⟨_, rfl, Table.key_of_find hlookup⟩
  | none =>
      simp only [recordFrom_cons (show Stage.appending.over = false from rfl), resume,
        hhealthy.append, hrow]
      have hnoid : ¬ (exchanges.append.rows.any fun r => r.id = row.id) = true := by
        simp only [List.any_eq_true, decide_eq_true_eq, not_exists, not_and]
        intro r hr heq
        exact (hhealthy.fresh r hr).1 (heq.trans hpk.1)
      have hnoreference :
          ¬ (exchanges.append.rows.any fun r => r.reference = row.reference) = true := by
        simp only [List.any_eq_true, decide_eq_true_eq, not_exists, not_and]
        intro r hr heq
        exact (hhealthy.fresh r hr).2 (heq.trans hpk.2)
      have happend : append timestamps exchanges.append.rows (some row) =
          if exchanges.append.rows.any (·.transactionId = row.transactionId) then
            .error (.uniqueViolation uqTransactionId)
          else
            .ok row := by
        simp only [append, hinstant, hstorable, hfits, Bool.not_true, Bool.false_eq_true,
          if_false, if_neg hnoid, if_neg hnoreference]
      by_cases hany : (exchanges.append.rows.any (·.transactionId = row.transactionId)) = true
      · rw [if_pos hany] at happend
        obtain ⟨r, hr, heq⟩ := List.any_eq_true.mp hany
        have hwinner : ∃ winner,
            findByTransactionId exchanges.reread.rows request.transactionId = some winner := by
          refine Option.ne_none_iff_exists'.mp fun hnone => ?_
          exact Table.find_eq_none_iff.mp hnone r (hhealthy.grows r hr)
            ((of_decide_eq_true heq).trans hid)
        obtain ⟨winner, hwinner⟩ := hwinner
        have hcatch : catchError (.uniqueViolation uqTransactionId) =
            .rereading (.uniqueViolation uqTransactionId) := rfl
        simp only [happend, hcatch, resume, hhealthy.reread, hwinner, recordFrom]
        exact ⟨_, rfl, Table.key_of_find hwinner⟩
      · rw [if_neg hany] at happend
        simp only [happend,
          recordFrom_of_over (show (Stage.returned ⟨row, true⟩).over = true from rfl)]
        exact ⟨_, rfl, hid⟩

/-- An instant that cannot be stored fails on a healthy database. -/
theorem record_of_unstorable (hnone : ∀ instant,
      timestamps.parse request.occurredAt = some instant → timestamps.storable instant = false)
    (hhealthy : Healthy exchanges) (hrows : exchanges.lookup.rows = []) :
    ∃ error, (record timestamps request exchanges).2 = .thrown error := by
  have happend : ∃ error, append timestamps exchanges.append.rows
      (Transaction.ofRequest timestamps request exchanges.append.generated) = .error error ∧
      catchError error = .thrown error := by
    cases hparse : timestamps.parse request.occurredAt with
    | none =>
        rw [Transaction.ofRequest, hparse]
        exact ⟨_, rfl, rfl⟩
    | some instant =>
        rw [Transaction.ofRequest, hparse, Option.map_some]
        simp only [append, hnone instant hparse, Bool.not_false, if_true]
        exact ⟨_, rfl, rfl⟩
  obtain ⟨error, happend, hcatch⟩ := happend
  have hlookup : findByTransactionId exchanges.lookup.rows request.transactionId = none := by
    rw [hrows]
    rfl
  refine ⟨error, ?_⟩
  rw [record, recordFrom_cons rfl]
  simp only [resume, hhealthy.lookup, hlookup,
    recordFrom_cons (show Stage.appending.over = false from rfl), hhealthy.append, happend, hcatch,
    recordFrom_of_over (show (Stage.thrown error).over = true from rfl)]

/-! ## What the decorators see -/

theorem Carried.str? {value value' : Option Json} (h : Carried value value') :
    value'.bind Json.str? = value.bind Json.str? := by
  cases h <;> rfl

theorem Carried.int? {value value' : Option Json} (h : Carried value value') :
    value'.bind Json.int? = value.bind Json.int? := by
  cases h <;> rfl

/-- No decorator of the class accepts an array or an object. -/
theorem Carried.accepts {value value' : Option Json} (h : Carried value value') :
    ∀ rule ∈ RecordTransactionRequest.rules unicode timestamps,
      rule.accepts value' = rule.accepts value := by
  cases h with
  | same => exact fun _ _ => rfl
  | arr items items' =>
      simp [RecordTransactionRequest.rules, Rule.isTransactionId, Rule.isReference,
        Rule.isAmount, Rule.isCurrency, Rule.isSafeDescription, isString, isEnum, matchesRegex,
        isValidAmount]
  | obj entries entries' =>
      simp [RecordTransactionRequest.rules, Rule.isTransactionId, Rule.isReference,
        Rule.isAmount, Rule.isCurrency, Rule.isSafeDescription, isString, isEnum, matchesRegex,
        isValidAmount]

section

variable {entries fields : JsonObject}
  (hcarried : ∀ property ∈ RecordTransactionRequest.properties,
    Carried (entries.lookup property) (fields.lookup property))

include hcarried

theorem invalidProperties_carried :
    invalidProperties (RecordTransactionRequest.rules unicode timestamps) fields =
      invalidProperties (RecordTransactionRequest.rules unicode timestamps) entries := by
  refine congrArg (List.map _) (List.filter_congr fun rule hrule => ?_)
  have hproperty : rule.property ∈ RecordTransactionRequest.properties :=
    List.mem_map_of_mem (f := Rule.property) hrule
  rw [(hcarried _ hproperty).accepts rule hrule]

theorem read_carried :
    RecordTransactionRequest.read fields = RecordTransactionRequest.read entries := by
  have htext (property : String) (h : property ∈ RecordTransactionRequest.properties) :
      (fields.lookup property).bind Json.str? = (entries.lookup property).bind Json.str? :=
    (hcarried property h).str?
  have hamount : (fields.lookup "amount").bind Json.int? = (entries.lookup "amount").bind Json.int? :=
    (hcarried "amount" (by decide)).int?
  simp only [RecordTransactionRequest.read, htext "transaction_id" (by decide),
    htext "payment_reference" (by decide), htext "type" (by decide),
    htext "wallet_reference" (by decide), htext "user_reference" (by decide), hamount,
    htext "currency" (by decide), htext "description" (by decide), htext "status" (by decide),
    htext "occurred_at" (by decide)]

end

/-! ## What the handler does with a payload -/

/-- A payload that passes is settled by what becomes of its record. -/
theorem handled_of_passes (hdocumented : Instantiates plainToInstance)
    (hvalue : plainToInstance payload = some value)
    (h : Passes unicode timestamps payload request) (exchanges : Exchanges) :
    (∃ outcome, (record timestamps request exchanges).2 = .returned outcome ∧
      (onTransactionRecorded plainToInstance unicode timestamps payload exchanges).settlements =
        [.ack]) ∨
    ∃ error, (record timestamps request exchanges).2 = .thrown error ∧
      (onTransactionRecorded plainToInstance unicode timestamps payload exchanges).settlements =
        [.nack false true] := by
  obtain ⟨entries, rfl, hvalid, hread⟩ := h
  obtain ⟨fields, rfl, hcarried⟩ := hdocumented.obj entries value hvalue
  have hvalid' := (invalidProperties_carried hcarried).trans hvalid
  have hread' := (read_carried hcarried).trans hread
  rcases record_ended timestamps request exchanges with ⟨outcome, hend⟩ | ⟨error, hend⟩
  · exact .inl ⟨outcome, hend, by simp only [onTransactionRecorded, hvalue, hvalid', hread', hend]⟩
  · exact .inr ⟨error, hend, by simp only [onTransactionRecorded, hvalue, hvalid', hread', hend]⟩

/-- A payload that does not pass is acknowledged and not recorded, unless it is null. -/
theorem handled_of_not_passes (hdocumented : Instantiates plainToInstance)
    (hvalue : plainToInstance payload = some value) (hnull : payload ≠ .null)
    (h : ∀ request, ¬ Passes unicode timestamps payload request) (exchanges : Exchanges) :
    onTransactionRecorded plainToInstance unicode timestamps payload exchanges =
      ⟨[.ack], none⟩ := by
  by_cases hobject : ∃ entries, payload = .obj entries
  · obtain ⟨entries, rfl⟩ := hobject
    obtain ⟨fields, rfl, hcarried⟩ := hdocumented.obj entries value hvalue
    simp only [onTransactionRecorded, hvalue]
    split
    · next request hvalid hread =>
        exact absurd ⟨entries, rfl, (invalidProperties_carried hcarried).symm.trans hvalid,
          (read_carried hcarried).symm.trans hread⟩ (h request)
    · rfl
  · obtain ⟨hvaluenull, hvalueobject⟩ :=
      hdocumented.other payload value hvalue hnull (not_exists.mp hobject)
    simp only [onTransactionRecorded, hvalue]

theorem says_of_passes (h : Passes unicode timestamps payload request) :
    ∃ entries, payload = .obj entries ∧ RecordTransactionRequest.Says entries request ∧
      request.Valid timestamps := by
  obtain ⟨entries, hpayload, hvalid, hread⟩ := h
  obtain ⟨request', hsays, hvalid'⟩ := RecordTransactionRequest.says_of_valid hvalid
  obtain rfl : request' = request :=
    Option.some.inj ((RecordTransactionRequest.read_of_says hsays).symm.trans hread)
  exact ⟨entries, hpayload, hsays, hvalid'⟩

/-- Every outcome of the database settles a delivery once; a healthy database records what
passes validation, and what does not pass is acknowledged unrecorded. -/
structure SettledOnce (plainToInstance : Json → Option Json) (unicode : Unicode)
    (timestamps : Timestamps) (payload : Json) : Prop where
  once : ∀ exchanges, ∃ settlement,
    (onTransactionRecorded plainToInstance unicode timestamps payload exchanges).settlements =
      [settlement]
  recorded : ∀ request, Passes unicode timestamps payload request → ∀ exchanges,
    Healthy exchanges →
    (onTransactionRecorded plainToInstance unicode timestamps payload exchanges).settlements =
        [.ack] ∧
      ∃ outcome, (record timestamps request exchanges).2 = .returned outcome ∧
        outcome.transaction.transactionId = request.transactionId
  ignored : (∀ request, ¬ Passes unicode timestamps payload request) → ∀ exchanges,
    onTransactionRecorded plainToInstance unicode timestamps payload exchanges = ⟨[.ack], none⟩

def emptyExchanges : Exchanges :=
  ⟨⟨[], sampleGenerated, .none⟩, ⟨[], sampleGenerated, .none⟩, ⟨[], sampleGenerated, .none⟩⟩

theorem healthy_emptyExchanges : Healthy emptyExchanges where
  lookup := rfl
  append := rfl
  reread := rfl
  grows _ h := h
  fresh _ h := absurd h List.not_mem_nil

theorem unsettled_of_throws
    (h : plainToInstance payload = none ∨ plainToInstance payload = some .null) :
    ¬ SettledOnce plainToInstance unicode timestamps payload := by
  intro hsettled
  obtain ⟨settlement, honce⟩ := hsettled.once emptyExchanges
  rcases h with h | h <;> simp only [onTransactionRecorded, h] at honce <;> cases honce

/-- A delivery is settled once and does not loop on its content exactly if `plainToInstance`
does not throw on its payload, the payload is not null and, where it passes validation, its
instant is one that `Date` reads and `timestamptz` stores. -/
theorem settled_once_iff (hdocumented : Instantiates plainToInstance) (unicode : Unicode)
    (timestamps : Timestamps) (payload : Json) :
    SettledOnce plainToInstance unicode timestamps payload ↔
      plainToInstance payload ≠ none ∧ payload ≠ .null ∧
        ∀ request, Passes unicode timestamps payload request →
          ∃ instant, timestamps.parse request.occurredAt = some instant ∧
            timestamps.storable instant = true := by
  constructor
  · intro h
    refine ⟨fun hthrows => unsettled_of_throws (.inl hthrows) h, ?_, fun request hpasses => ?_⟩
    · rintro rfl
      exact unsettled_of_throws (.inr hdocumented.null) h
    · by_contra hnone
      have hunstorable : ∀ instant, timestamps.parse request.occurredAt = some instant →
          timestamps.storable instant = false := fun instant hinstant =>
        Bool.eq_false_iff.mpr fun hstorable => hnone ⟨instant, hinstant, hstorable⟩
      obtain ⟨error, hthrown⟩ :=
        record_of_unstorable hunstorable healthy_emptyExchanges rfl
      obtain ⟨-, outcome, hreturned, -⟩ :=
        h.recorded request hpasses emptyExchanges healthy_emptyExchanges
      rw [hthrown] at hreturned
      cases hreturned
  · rintro ⟨hreturns, hnull, hinstant⟩
    obtain ⟨value, hvalue⟩ := Option.ne_none_iff_exists'.mp hreturns
    refine ⟨fun exchanges => ?_, fun request hpasses exchanges hhealthy => ?_,
      fun hnone exchanges => handled_of_not_passes hdocumented hvalue hnull hnone exchanges⟩
    · by_cases hpasses : ∃ request, Passes unicode timestamps payload request
      · obtain ⟨request, hpasses⟩ := hpasses
        rcases handled_of_passes hdocumented hvalue hpasses exchanges with
          ⟨-, -, hack⟩ | ⟨-, -, hnack⟩
        · exact ⟨_, hack⟩
        · exact ⟨_, hnack⟩
      · rw [handled_of_not_passes hdocumented hvalue hnull (not_exists.mp hpasses) exchanges]
        exact ⟨.ack, rfl⟩
    · obtain ⟨instant, hparse, hstorable⟩ := hinstant request hpasses
      obtain ⟨-, -, -, hvalid⟩ := says_of_passes hpasses
      obtain ⟨outcome, hreturned, hid⟩ := record_of_healthy hvalid hhealthy hparse hstorable
      refine ⟨?_, outcome, hreturned, hid⟩
      rcases handled_of_passes hdocumented hvalue hpasses exchanges with
        ⟨-, -, hack⟩ | ⟨error, hthrown, -⟩
      · exact hack
      · rw [hthrown] at hreturned
        cases hreturned

end

/-! ## Payloads that are not settled -/

/-- What a nested object has for its class instead of `Object`: a truthy value under its
own key `constructor`. -/
def classOf : Json → Option Json
  | .obj entries =>
      match entries.lookup "constructor" with
      | none | some .null | some (.bool false) | some (.num 0) | some (.str "") => none
      | some value => some value
  | _ => none

/-- class-transformer on payloads that nest objects once: it makes an instance of the class
of each of them, and no JSON value is a class. -/
def sampleTransformer (payload : Json) : Option Json :=
  match payload with
  | .obj entries =>
      if entries.all fun entry => (classOf entry.2).isNone then some payload else none
  | _ => some payload

theorem instantiates_sampleTransformer : Instantiates sampleTransformer where
  null := rfl
  obj entries value h := by
    simp only [sampleTransformer] at h
    split_ifs at h
    cases h
    exact ⟨entries, rfl, fun _ _ => .same _⟩
  other payload value h hnull hobject := by
    cases payload with
    | null => exact absurd rfl hnull
    | obj entries => exact absurd rfl (hobject entries)
    | bool | num | str | arr =>
        cases h
        exact ⟨hnull, hobject⟩

def eventPayload (occurredAt : String) (more : JsonObject) : Json :=
  .obj ([("transaction_id", .str "pay_00000000000000000000000001"),
    ("payment_reference", .str "pay_00000000000000000000000001"),
    ("type", .str "DEBIT"),
    ("wallet_reference", .str "wlt_00000000000000000000000001"),
    ("user_reference", .str "usr_00000000000000000000000000"),
    ("amount", .num 500),
    ("currency", .str "XOF"),
    ("description", .str "Order 1"),
    ("status", .str "Approved"),
    ("occurred_at", .str occurredAt)] ++ more)

def weekPayload : Json := eventPayload "2026-W10" []

/-- An event that nests an object with a key `constructor`. -/
def constructorPayload : Json :=
  eventPayload "2026-03-05T10:00:00.000Z" [("extra", .obj [("constructor", .str "x")])]

/-- The strict check knows weeks and `Date` does not. -/
def weekTimestamps : Timestamps where
  isISO8601 text := text == "2026-W10" || text == "2026-03-05T10:00:00.000Z"
  parse text := if text = "2026-03-05T10:00:00.000Z" then some 1772704800000 else none
  storable _ := true

theorem throws_constructorPayload : sampleTransformer constructorPayload = none := by
  decide +kernel

/-- An event that nests an object is recorded; one whose nested object has a class is not
even refused. -/
theorem settled_once_iff_eventPayload :
    SettledOnce sampleTransformer Unicode.ascii weekTimestamps
        (eventPayload "2026-03-05T10:00:00.000Z" [("extra", .obj [("a", .null)])]) ∧
      ¬ SettledOnce sampleTransformer Unicode.ascii weekTimestamps constructorPayload := by
  constructor
  · refine (settled_once_iff instantiates_sampleTransformer _ _ _).mpr
      ⟨by decide +kernel, Json.noConfusion, fun request hpasses => ?_⟩
    obtain ⟨entries, hpayload, hsays, -⟩ := says_of_passes hpasses
    cases hpayload
    have hoccurredAt : request.occurredAt = "2026-03-05T10:00:00.000Z" :=
      (Json.str.inj (Option.some.inj hsays.occurredAt)).symm
    rw [hoccurredAt]
    exact ⟨1772704800000, rfl, rfl⟩
  · intro h
    exact ((settled_once_iff instantiates_sampleTransformer _ _ _).mp h).1
      throws_constructorPayload

theorem weekPayload_loops :
    (onTransactionRecorded sampleTransformer Unicode.ascii weekTimestamps weekPayload
        emptyExchanges).settlements = [.nack false true] ∧
      (onTransactionRecorded sampleTransformer Unicode.ascii weekTimestamps .null
        emptyExchanges).settlements = [] ∧
      (onTransactionRecorded sampleTransformer Unicode.ascii weekTimestamps constructorPayload
        emptyExchanges).settlements = [] ∧
      ∀ payload ∈ [weekPayload, .null, constructorPayload],
        ¬ SettledOnce sampleTransformer Unicode.ascii weekTimestamps payload := by
  have hnack : (onTransactionRecorded sampleTransformer Unicode.ascii weekTimestamps weekPayload
      emptyExchanges).settlements = [.nack false true] := by decide +kernel
  have hthrows := throws_constructorPayload
  refine ⟨hnack, rfl, by rw [onTransactionRecorded, hthrows], fun payload hpayload => ?_⟩
  simp only [List.mem_cons, List.not_mem_nil, or_false] at hpayload
  rcases hpayload with rfl | rfl | rfl
  · intro h
    obtain ⟨request, hpasses⟩ : ∃ request,
        Passes Unicode.ascii weekTimestamps weekPayload request := by
      by_contra hnone
      rw [h.ignored (not_exists.mp hnone)] at hnack
      cases hnack
    rw [(h.recorded request hpasses emptyExchanges healthy_emptyExchanges).1] at hnack
    cases hnack
  · exact unsettled_of_throws (.inr rfl)
  · exact unsettled_of_throws (.inl hthrows)

end Transactions

end Paynad
