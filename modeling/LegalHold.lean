import LegalHold.Answering
import LegalHold.Arguments
import LegalHold.Audit
import LegalHold.Authorization
import LegalHold.Casting
import LegalHold.Chronology
import LegalHold.Completion
import LegalHold.Configuration
import LegalHold.Conformance
import LegalHold.Deadlock
import LegalHold.DomainErrors
import LegalHold.Failures
import LegalHold.Filters
import LegalHold.Fingerprint
import LegalHold.Governance
import LegalHold.Listing
import LegalHold.Matching
import LegalHold.Noninterference
import LegalHold.Protection
import LegalHold.Provenance
import LegalHold.Receipts
import LegalHold.Recency
import LegalHold.Redelivery
import LegalHold.Refusals
import LegalHold.Responses
import LegalHold.Retries
import LegalHold.Serial
import LegalHold.Snapshots
import LegalHold.Tailing
import LegalHold.Tenants
import LegalHold.Validation
