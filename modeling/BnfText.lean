import BnfText.Cursor.Session
import BnfText.Error.Data
import BnfText.Grammar.Canonical
import BnfText.Grammar.Rule
import BnfText.Grammar.Tally
import BnfText.Grammar.Trace
import BnfText.Proofs.Completion
import BnfText.Proofs.Defect
import BnfText.Proofs.Scan
import BnfText.Proofs.Canonical
import BnfText.Proofs.Concatenation
import BnfText.Proofs.ContextFree
import BnfText.Proofs.Diagnosis
import BnfText.Proofs.Encoding
import BnfText.Proofs.Regular
import BnfText.Proofs.Session
import BnfText.Proofs.SelfDescription
import BnfText.Proofs.Spelling
import BnfText.Proofs.ReadBack
import BnfText.Proofs.Resumption
import BnfText.Proofs.Relocation
import BnfText.Proofs.Traversal
import BnfText.Proofs.Literals
import BnfText.Proofs.Size
import BnfText.Proofs.UniqueReading
import BnfText.Proofs.LineBreaks
import BnfText.Proofs.Verdict
import BnfText.Proofs.Preorder
import BnfText.Proofs.Sinks
import BnfText.Proofs.Taking
import BnfText.Proofs.Wording
