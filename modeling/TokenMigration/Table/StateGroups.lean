import TokenMigration.Table

namespace TokenMigration.Table

-- The flat services of the application state, each with its accessor in one of the two groups
-- commerce and system.
def stateGroups : Table := .ofList [
  ("state.product_service", "state.commerce.product"),
  ("state.inventory_service", "state.commerce.inventory"),
  ("state.pricing_service", "state.commerce.pricing"),
  ("state.transaction_service", "state.commerce.transactions"),
  ("state.buylist_service", "state.commerce.buylist"),
  ("state.holds_service", "state.commerce.holds"),
  ("state.payment_service", "state.commerce.payments"),
  ("state.tax_service", "state.commerce.taxes"),
  ("state.returns_service", "state.commerce.returns"),
  ("state.trade_in_protection_service", "state.commerce.trade_in"),
  ("state.audit_service", "state.system.audit"),
  ("state.event_service", "state.system.events"),
  ("state.barcode_service", "state.system.barcode"),
  ("state.receipt_service", "state.system.receipts"),
  ("state.invoice_service", "state.system.invoices"),
  ("state.label_service", "state.system.labels"),
  ("state.cash_drawer_service", "state.system.cash_drawer"),
  ("state.printer_service", "state.system.printers"),
  ("state.catalog_lookup_service", "state.system.catalog"),
  ("state.serialized_inventory_service", "state.system.serialized"),
  ("state.location_service", "state.system.locations"),
  ("state.reporting_service", "state.system.reporting"),
  ("state.email_service", "state.system.email"),
  ("state.sms_service", "state.system.sms"),
  ("state.notification_scheduler", "state.system.notification_scheduler")]

end TokenMigration.Table
