/- source: cosmix-interaction-schema/src/dialog.rs
   digest: Dialog requests and values of dialog.v1 and their checks. -/

import Mathlib.Algebra.Order.Ring.Int
import Mathlib.Data.String.Basic

namespace Cosmix.Interaction

def minDialogDeadlineMs : Nat := 300000
def maxDialogRequestBytes : Nat := 16 * 1024
def maxDialogResultBytes : Nat := 16 * 1024
def maxDialogTitleBytes : Nat := 512
def maxDialogMessageBytes : Nat := 8 * 1024
def maxDialogDetailsBytes : Nat := 8 * 1024
def maxDialogTextViewBytes : Nat := 12 * 1024
def maxDialogLabelBytes : Nat := 128
def maxDialogKeyBytes : Nat := 128
def maxDialogPathBytes : Nat := 4 * 1024
def maxDialogPromptInitialBytes : Nat := 4 * 1024
def maxDialogPromptChars : Nat := 4096
def maxDialogItems : Nat := 256
def maxDialogPaths : Nat := 256
def maxDialogActions : Nat := 3
def maxDialogFilters : Nat := 16
def maxDialogExtensionsPerFilter : Nat := 32

inductive DialogValidationError
  | empty (field : String)
  | tooLong (field : String) (max : Nat)
  | tooMany (field : String) (max : Nat)
  | invalidKey (field key : String)
  | duplicateKey (field key : String)
  | multipleDefaults
  | multipleCancelActions
  | destructiveDefault
  | unknownDefaultKey (key : String)
  | disabledDefaultKey (key : String)
  | invalidProgress
  | invalidSlider
  | invalidSaveName
  | invalidExtension (extension : String)
  | invalidDeadline
  | resultKindMismatch
  | unknownResultKey (key : String)
  | disabledResultKey (key : String)
  | duplicateResultKey (key : String)
  | requestTooLarge (got max : Nat)
  | resultTooLarge (got max : Nat)
deriving DecidableEq

inductive DialogKindV1
  | message | confirm | prompt | choice | multiChoice | progress | fileOpen | fileSave | dirSelect
  | slider | textView
deriving DecidableEq

inductive DialogSeverityV1
  | info | success | warning | error
deriving DecidableEq

structure DialogCommonV1 where
  title : String
  message : Option String
  severity : DialogSeverityV1 := .info
deriving DecidableEq

inductive DialogActionRoleV1
  | accept | cancel | destructive | auxiliary
deriving DecidableEq

structure DialogActionV1 where
  (key label : String)
  role : DialogActionRoleV1
  isDefault : Bool := false
deriving DecidableEq

structure DialogChoiceItemV1 where
  (key label : String)
  description : Option String := none
  enabled : Bool := true
deriving DecidableEq

structure DialogTextInputV1 where
  initial : Option String := none
  maxChars : Nat := maxDialogPromptChars
  required : Bool := false
  multiline : Bool := false
deriving DecidableEq

inductive DialogProgressValueV1
  | indeterminate
  | determinate (current total : Nat)
deriving DecidableEq

structure DialogFileFilterV1 where
  label : String
  extensions : List String
deriving DecidableEq

inductive DialogRequestV1
  | message (common : DialogCommonV1) (details : Option String)
  | confirm (common : DialogCommonV1) (actions : List DialogActionV1)
  | prompt (common : DialogCommonV1) (input : DialogTextInputV1)
  | choice (common : DialogCommonV1) (items : List DialogChoiceItemV1) (initial : Option String)
  | multiChoice (common : DialogCommonV1) (items : List DialogChoiceItemV1) (initial : List String)
  | progress (common : DialogCommonV1) (progress : DialogProgressValueV1) (cancellable : Bool)
  | fileOpen (common : DialogCommonV1) (initialDirectory : Option String)
      (filters : List DialogFileFilterV1) (multiple : Bool)
  | fileSave (common : DialogCommonV1) (initialDirectory : Option String)
      (filters : List DialogFileFilterV1) (suggestedName defaultExtension : Option String)
  | dirSelect (common : DialogCommonV1) (initialDirectory : Option String)
  | slider (common : DialogCommonV1) (min max step initial : Int)
  | textView (common : DialogCommonV1) (text : String) (monospace : Bool)
deriving DecidableEq

def validateLen (field value : String) (max : Nat) : Except DialogValidationError Unit :=
  if value.utf8ByteSize > max then .error (.tooLong field max) else .ok ()

def validateNonEmptyLen (field value : String) (max : Nat) : Except DialogValidationError Unit :=
  if value.isEmpty then .error (.empty field) else validateLen field value max

def validateOptionalLen (field : String) (value : Option String) (max : Nat) :
    Except DialogValidationError Unit :=
  match value with
  | none => .ok ()
  | some value => validateLen field value max

def validateCount (field : String) (actual max : Nat) : Except DialogValidationError Unit :=
  if actual > max then .error (.tooMany field max) else .ok ()

def validateKey (field key : String) : Except DialogValidationError Unit :=
  if key.isEmpty ∨ key.utf8ByteSize > maxDialogKeyBytes ∨
      ¬ key.toList.all (fun c => c.isAlphanum || c == '.' || c == '_' || c == '-') then
    .error (.invalidKey field key)
  else .ok ()

def validateCommon (common : DialogCommonV1) : Except DialogValidationError Unit := do
  validateNonEmptyLen "title" common.title maxDialogTitleBytes
  validateOptionalLen "message" common.message maxDialogMessageBytes

def countUp (b : Bool) (n : Nat) : Nat := if b then n + 1 else n

/-- The actions one after the other, with the keys seen and the defaults and cancels counted. -/
def validateActionsFrom : List String → Nat → Nat → List DialogActionV1 →
    Except DialogValidationError Unit
  | _, defaults, cancels, [] =>
    if defaults > 1 then .error .multipleDefaults
    else if cancels > 1 then .error .multipleCancelActions
    else .ok ()
  | keys, defaults, cancels, action :: actions => do
    validateKey "actions" action.key
    validateNonEmptyLen "action.label" action.label maxDialogLabelBytes
    if action.key ∈ keys then .error (.duplicateKey "actions" action.key)
    else if action.isDefault && action.role == .destructive then .error .destructiveDefault
    else
      validateActionsFrom (action.key :: keys) (countUp action.isDefault defaults)
        (countUp (action.role == .cancel) cancels) actions

def validateActions (actions : List DialogActionV1) : Except DialogValidationError Unit := do
  validateCount "actions" actions.length maxDialogActions
  if actions.isEmpty then .error (.empty "actions") else validateActionsFrom [] 0 0 actions

def validateInput (input : DialogTextInputV1) : Except DialogValidationError Unit :=
  if input.maxChars = 0 ∨ input.maxChars > maxDialogPromptChars then
    .error (.tooLong "max_chars" maxDialogPromptChars)
  else
    match input.initial with
    | none => .ok ()
    | some initial => do
      validateLen "input.initial" initial maxDialogPromptInitialBytes
      if initial.length > input.maxChars then .error (.tooLong "input.initial" input.maxChars)
      else .ok ()

def validateItemsFrom : List String → List DialogChoiceItemV1 → Except DialogValidationError Unit
  | _, [] => .ok ()
  | keys, item :: items => do
    validateKey "items" item.key
    validateNonEmptyLen "item.label" item.label maxDialogLabelBytes
    validateOptionalLen "item.description" item.description maxDialogMessageBytes
    if item.key ∈ keys then .error (.duplicateKey "items" item.key)
    else validateItemsFrom (item.key :: keys) items

def validateItems (items : List DialogChoiceItemV1) : Except DialogValidationError Unit := do
  validateCount "items" items.length maxDialogItems
  if items.isEmpty then .error (.empty "items") else validateItemsFrom [] items

/-- A key has to name an enabled item; the two callers report it by different errors. -/
def validateItemKey (unknown disabled : String → DialogValidationError)
    (items : List DialogChoiceItemV1) (key : String) : Except DialogValidationError Unit :=
  match items.find? (·.key == key) with
  | none => .error (unknown key)
  | some item => if item.enabled then .ok () else .error (disabled key)

def validateInitialKey : List DialogChoiceItemV1 → String → Except DialogValidationError Unit :=
  validateItemKey .unknownDefaultKey .disabledDefaultKey

def validateResultChoice : List DialogChoiceItemV1 → String → Except DialogValidationError Unit :=
  validateItemKey .unknownResultKey .disabledResultKey

/-- Keys that name items, none of them twice. -/
def validateKeysFrom (check : String → Except DialogValidationError Unit)
    (duplicate : String → DialogValidationError) :
    List String → List String → Except DialogValidationError Unit
  | _, [] => .ok ()
  | seen, key :: keys => do
    check key
    if key ∈ seen then .error (duplicate key)
    else validateKeysFrom check duplicate (key :: seen) keys

def validateProgress : DialogProgressValueV1 → Except DialogValidationError Unit
  | .indeterminate => .ok ()
  | .determinate current total =>
    if total = 0 ∨ current > total then .error .invalidProgress else .ok ()

def validateSlider (min max step value : Int) : Except DialogValidationError Unit :=
  if min ≥ max ∨ step ≤ 0 ∨ value < min ∨ value > max then .error .invalidSlider
  else if (value - min).tmod step ≠ 0 then .error .invalidSlider
  else .ok ()

def validateSaveName (name : String) : Except DialogValidationError Unit :=
  if name.isEmpty ∨ name = "." ∨ name = ".." ∨ '/' ∈ name.toList ∨ '\\' ∈ name.toList then
    .error .invalidSaveName
  else validateLen "suggested_name" name maxDialogPathBytes

def validateExtension (extension : String) : Except DialogValidationError Unit :=
  if extension.isEmpty ∨ extension.toList.head? = some '.' ∨
      ¬ extension.toList.all (fun c => c.isLower || c.isDigit || c == '+' || c == '-') then
    .error (.invalidExtension extension)
  else .ok ()

def validateFilterFrom : List DialogFileFilterV1 → Except DialogValidationError Unit
  | [] => .ok ()
  | filter :: filters => do
    validateNonEmptyLen "filter.label" filter.label maxDialogLabelBytes
    validateCount "filter.extensions" filter.extensions.length maxDialogExtensionsPerFilter
    if filter.extensions.isEmpty then .error (.empty "filter.extensions")
    validateKeysFrom validateExtension (.duplicateKey "filter.extensions") [] filter.extensions
    validateFilterFrom filters

variable (filters : List DialogFileFilterV1)

def validateFilters (defaultExtension : Option String) : Except DialogValidationError Unit := do
  validateCount "filters" filters.length maxDialogFilters
  validateFilterFrom filters
  match defaultExtension with
  | none => .ok ()
  | some extension => do
    validateExtension extension
    if extension ∈ filters.flatMap (·.extensions) then .ok ()
    else .error (.unknownDefaultKey extension)

def validateOptionalPath (field : String) (value : Option String) :
    Except DialogValidationError Unit :=
  match value with
  | none => .ok ()
  | some value => validateNonEmptyLen field value maxDialogPathBytes

def optionBytes (text : Option String) : Nat := text.elim 0 String.utf8ByteSize

def textsBytes (texts : List String) : Nat := (texts.map String.utf8ByteSize).sum

def retainedItemBytes (items : List DialogChoiceItemV1) : Nat :=
  (items.map fun item =>
    item.key.utf8ByteSize + item.label.utf8ByteSize + optionBytes item.description).sum

def retainedFilterBytes : Nat :=
  (filters.map fun filter => filter.label.utf8ByteSize + textsBytes filter.extensions).sum

namespace DialogRequestV1

def kind : DialogRequestV1 → DialogKindV1
  | .message .. => .message
  | .confirm .. => .confirm
  | .prompt .. => .prompt
  | .choice .. => .choice
  | .multiChoice .. => .multiChoice
  | .progress .. => .progress
  | .fileOpen .. => .fileOpen
  | .fileSave .. => .fileSave
  | .dirSelect .. => .dirSelect
  | .slider .. => .slider
  | .textView .. => .textView

def common : DialogRequestV1 → DialogCommonV1
  | .message common _ | .confirm common _ | .prompt common _ | .choice common _ _
  | .multiChoice common _ _ | .progress common _ _ | .fileOpen common _ _ _
  | .fileSave common _ _ _ _ | .dirSelect common _ | .slider common _ _ _ _
  | .textView common _ _ => common

def retainedBytes (request : DialogRequestV1) : Nat :=
  request.common.title.utf8ByteSize + optionBytes request.common.message +
    match request with
    | .message _ details => optionBytes details
    | .confirm _ actions =>
      (actions.map fun action => action.key.utf8ByteSize + action.label.utf8ByteSize).sum
    | .prompt _ input => optionBytes input.initial
    | .choice _ items initial => retainedItemBytes items + optionBytes initial
    | .multiChoice _ items initial => retainedItemBytes items + textsBytes initial
    | .progress .. | .slider .. => 0
    | .fileOpen _ initialDirectory filters _ =>
      optionBytes initialDirectory + retainedFilterBytes filters
    | .fileSave _ initialDirectory filters suggestedName defaultExtension =>
      optionBytes initialDirectory + retainedFilterBytes filters + optionBytes suggestedName +
        optionBytes defaultExtension
    | .dirSelect _ initialDirectory => optionBytes initialDirectory
    | .textView _ text _ => text.utf8ByteSize

/-- The checks of the fields that only requests of one kind have. -/
def validateBody : DialogRequestV1 → Except DialogValidationError Unit
  | .message _ details => validateOptionalLen "details" details maxDialogDetailsBytes
  | .confirm _ actions => validateActions actions
  | .prompt _ input => validateInput input
  | .choice _ items initial => do
    validateItems items
    match initial with
    | none => .ok ()
    | some key => validateInitialKey items key
  | .multiChoice _ items initial => do
    validateItems items
    validateCount "initial" initial.length maxDialogItems
    validateKeysFrom (validateInitialKey items) (.duplicateKey "initial") [] initial
  | .progress _ shown _ => validateProgress shown
  | .fileOpen _ initialDirectory filters _ => do
    validateOptionalPath "initial_directory" initialDirectory
    validateFilters filters none
  | .fileSave _ initialDirectory filters suggestedName defaultExtension => do
    validateOptionalPath "initial_directory" initialDirectory
    match suggestedName with
    | none => .ok ()
    | some name => validateSaveName name
    validateFilters filters defaultExtension
  | .dirSelect _ initialDirectory => validateOptionalPath "initial_directory" initialDirectory
  | .slider _ min max step initial => validateSlider min max step initial
  | .textView _ text _ => validateNonEmptyLen "text" text maxDialogTextViewBytes

def validate (request : DialogRequestV1) : Except DialogValidationError Unit := do
  validateCommon request.common
  request.validateBody
  if request.retainedBytes > maxDialogRequestBytes then
    .error (.requestTooLarge request.retainedBytes maxDialogRequestBytes)
  else .ok ()

end DialogRequestV1

structure DialogOpenRequestV1 where
  dialog : DialogRequestV1
  deadlineMs : Option Nat
deriving DecidableEq

def DialogOpenRequestV1.validate (request : DialogOpenRequestV1) :
    Except DialogValidationError Unit := do
  request.dialog.validate
  if request.deadlineMs.any (· < minDialogDeadlineMs) then .error .invalidDeadline else .ok ()

inductive DialogStateV1
  | queued | presenting | presented | cancelRequested | resolved | cancelled | expired | failed
deriving DecidableEq

def DialogStateV1.isTerminal : DialogStateV1 → Bool
  | .resolved | .cancelled | .expired | .failed => true
  | _ => false

structure DialogProgressPatchV1 where
  message : Option String
  progress : Option DialogProgressValueV1
deriving DecidableEq

def DialogProgressPatchV1.validate (patch : DialogProgressPatchV1) :
    Except DialogValidationError Unit := do
  validateOptionalLen "message" patch.message maxDialogMessageBytes
  match patch.progress with
  | none => .ok ()
  | some progress => validateProgress progress

inductive DialogProgressCompletionV1
  | succeeded
  | cancelled
  | failed (message : String)
deriving DecidableEq

def DialogProgressCompletionV1.validate : DialogProgressCompletionV1 →
    Except DialogValidationError Unit
  | .failed message => validateNonEmptyLen "message" message maxDialogMessageBytes
  | _ => .ok ()

inductive DialogValueV1
  | message
  | confirm (action : String)
  | prompt (text : String)
  | choice (key : String)
  | multiChoice (keys : List String)
  | progress (completion : DialogProgressCompletionV1)
  | fileOpen (paths : List String)
  | fileSave (path : String)
  | dirSelect (path : String)
  | slider (value : Int)
  | textView
deriving DecidableEq

namespace DialogValueV1

def retainedBytes : DialogValueV1 → Nat
  | .message | .textView | .slider _ => 0
  | .confirm action => action.utf8ByteSize
  | .prompt text => text.utf8ByteSize
  | .choice key => key.utf8ByteSize
  | .multiChoice keys => textsBytes keys
  | .progress .succeeded | .progress .cancelled => 0
  | .progress (.failed reason) => reason.utf8ByteSize
  | .fileOpen paths => textsBytes paths
  | .fileSave path | .dirSelect path => path.utf8ByteSize

def validatePaths : List String → Except DialogValidationError Unit
  | [] => .ok ()
  | path :: paths => do
    validateNonEmptyLen "path" path maxDialogPathBytes
    validatePaths paths

/-- The value is of the kind that was asked for, and what it says is allowed by the request. -/
def validateBody : DialogValueV1 → DialogRequestV1 → Except DialogValidationError Unit
  | .message, .message .. | .textView, .textView .. => .ok ()
  | .confirm action, .confirm _ actions =>
    if actions.any (·.key == action) then .ok () else .error (.unknownResultKey action)
  | .prompt text, .prompt _ input => do
    validateLen "text" text maxDialogPromptInitialBytes
    if input.required && text.isEmpty then .error (.empty "text")
    else if text.length > input.maxChars then .error (.tooLong "text" input.maxChars)
    else .ok ()
  | .choice key, .choice _ items _ => validateResultChoice items key
  | .multiChoice keys, .multiChoice _ items _ => do
    validateCount "keys" keys.length maxDialogItems
    validateKeysFrom (validateResultChoice items) .duplicateResultKey [] keys
  | .progress completion, .progress .. => completion.validate
  | .fileOpen paths, .fileOpen _ _ _ multiple => do
    if paths.isEmpty then .error (.empty "paths")
    validateCount "paths" paths.length maxDialogPaths
    if !multiple && paths.length != 1 then .error (.tooMany "paths" 1)
    validatePaths paths
  | .fileSave path, .fileSave .. | .dirSelect path, .dirSelect .. =>
    validateNonEmptyLen "path" path maxDialogPathBytes
  | .slider value, .slider _ min max step _ => validateSlider min max step value
  | _, _ => .error .resultKindMismatch

def validateFor (value : DialogValueV1) (request : DialogRequestV1) :
    Except DialogValidationError Unit := do
  value.validateBody request
  if value.retainedBytes > maxDialogResultBytes then
    .error (.resultTooLarge value.retainedBytes maxDialogResultBytes)
  else .ok ()

end DialogValueV1

end Cosmix.Interaction
